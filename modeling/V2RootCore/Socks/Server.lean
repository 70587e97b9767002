import V2RootCore.Socks.Handshake

/-!
# The SOCKS server

One port for SOCKS 4, SOCKS 5 and HTTP.
-/

namespace V2RootCore.Socks

open Go Net Http

/-- What is known of the connection besides its stream. The gateway is there if it is valid. -/
structure Inbound where
  gateway : Option Destination
  localAddress : Address
  remote : Bytes

/-- `Server`, with the configuration of its HTTP server. -/
structure Server where
  config : Socks.ServerConfig
  httpConfig : Http.ServerConfig
  udpFilter : Bool

def newServer (config : Socks.ServerConfig) : Server :=
  if config.authType = .password then
    { config, httpConfig := { accounts := config.accounts }, udpFilter := true }
  else { config, httpConfig := {}, udpFilter := false }

namespace Server

/-- `processTCP` with a request: it is dispatched, or the remote address gets into the filter. -/
def serve (s : Server) (dispatch : Destination → Option Error) (inbound : Inbound) (stream : Bytes)
    (request : RequestHeader) : Served :=
  match request.command with
  | .tcp => dispatchLink dispatch stream (tcpDestination request.address request.port)
  | .udp => (if s.udpFilter then [.register stream inbound.remote] else [], .ok ())

/-- `processTCP`. The stream of an association is read to its end. -/
def processTCP (s : Server) (dispatch : Destination → Option Error) (inbound : Inbound) (conn : Conn) :
    Served :=
  match inbound.gateway with
  | none => ([], .error (.new (ascii "inbound gateway not specified")))
  | some gateway =>
      let session : ServerSession :=
        { config := s.config, address := gateway.address, port := gateway.port,
          localAddress := inbound.localAddress }
      match (session.handshake.run conn).1 with
      | .error .panicked => ([], .error .panicked)
      | .error err => ([], .error (.base (ascii "failed to read request") err))
      | .ok request => s.serve dispatch inbound conn.input request

/-- `Process` for a TCP connection whose stream ends without an error. -/
def process (s : Server) (packages : Packages) (dispatch : Destination → Option Error)
    (rounds : List Round) (inbound : Inbound) (conn : Conn) : Served :=
  match conn.input with
  | [] => ([], .ok ())
  | firstbyte :: _ =>
      if firstbyte ≠ 5 ∧ firstbyte ≠ 4 then
        processWithFirstbyte packages s.httpConfig dispatch rounds conn
      else s.processTCP dispatch inbound conn

end Server

end V2RootCore.Socks
