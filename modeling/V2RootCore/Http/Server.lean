import V2RootCore.Go.Base64
import V2RootCore.Go.Map
import V2RootCore.Go.Talk
import V2RootCore.Net.Address

/-!
# The HTTP proxy server

Requests are read one after another from a connection, checked for a user and handed to the dispatcher.
How the exchange of a plain request ends, and how much of the stream its body took, is given for each of
them.
-/

namespace V2RootCore.Http

open Go Net

/-- What the server looks at in an `http.Request`. -/
structure Request where
  method : Bytes
  host : Bytes
  scheme : Bytes := []
  urlHost : Bytes
  header : Map Bytes := []

/-- `Header.Get`. -/
def Request.get (request : Request) (key : Bytes) : Bytes := (request.header.lookup key).getD []

/-- `http.ReadRequest` of the standard library, as far as it is used. What is left of the stream is an end of it.
The host is not kept with the headers. -/
structure Packages where
  readRequest : Bytes → Except Error (Request × Bytes)
  suffix_of_readRequest : ∀ {input rest request}, readRequest input = .ok (request, rest) → rest <:+ input

/-- `strings.EqualFold` on ASCII texts. -/
def equalFold (s t : Bytes) : Bool :=
  let lower (c : UInt8) : UInt8 := if 65 ≤ c ∧ c ≤ 90 then c + 32 else c
  s.map lower = t.map lower

/-- `HasAccount`, of both servers. -/
def hasAccount (accounts : Option (Map Bytes)) (username password : Bytes) : Bool :=
  match accounts with
  | none => false
  | some accounts =>
      match accounts.lookup username with
      | none => false
      | some stored => stored = password

def parseBasicAuth (auth : Bytes) : Option (Bytes × Bytes) :=
  if hasPrefix auth (ascii "Basic ") then
    match Base64.stdEncoding.decode (auth.drop (ascii "Basic ").length) with
    | none => none
    | some c => splitTwo 58 c
  else none

/-- `net.SplitHostPort`, or why it fails. -/
def splitHostPort (hostport : Bytes) : Except Bytes (Bytes × Bytes) :=
  match cutLast 58 hostport with
  | none => .error (ascii "missing port in address")
  | some (before, port) =>
      if hostport.head? = some 91 then
        match hostport.findIdx? (· = 93) with
        | none => .error (ascii "missing ']' in address")
        | some stop =>
            if stop + 1 = hostport.length then .error (ascii "missing port in address")
            else if stop + 1 ≠ before.length then
              .error (if hostport.getD (stop + 1) 0 = 58 then ascii "too many colons in address"
                else ascii "missing port in address")
            else if 91 ∈ hostport.drop 1 then .error (ascii "unexpected '[' in address")
            else if 93 ∈ hostport.drop (stop + 1) then .error (ascii "unexpected ']' in address")
            else .ok ((hostport.take stop).drop 1, port)
      else if 58 ∈ before then .error (ascii "too many colons in address")
      else if 91 ∈ hostport then .error (ascii "unexpected '[' in address")
      else if 93 ∈ hostport then .error (ascii "unexpected ']' in address")
      else .ok (before, port)

/-- `ParseHost`. The port is cut to 16 bits. -/
def parseHost (rawHost : Bytes) (defaultPort : UInt16) : Except Error Destination :=
  match splitHostPort rawHost with
  | .error why =>
      if contains why (ascii "missing port") then
        .ok (tcpDestination (parseAddress rawHost) defaultPort)
      else
        .error (.new (if rawHost = [] then why else ascii "address " ++ rawHost ++ ascii ": " ++ why))
  | .ok (host, rawPort) =>
      if rawPort = [] then .ok (tcpDestination (parseAddress host) defaultPort)
      else
        match atoi rawPort with
        | .error why =>
            .error (.new (ascii "strconv.Atoi: parsing " ++ [34] ++ rawPort ++ [34] ++ ascii ": " ++ why))
        | .ok port => .ok (tcpDestination (parseAddress host) (UInt16.ofNat (port % 2 ^ 16).toNat))

structure ServerConfig where
  accounts : Option (Map Bytes) := none
  allowTransparent : Bool := false

/-- `len` of a map that may be nil. -/
def accountsLen (accounts : Option (Map Bytes)) : Nat := accounts.elim 0 List.length

/-- The request has a user and password that the configuration knows. -/
def ServerConfig.authorized (config : ServerConfig) (request : Request) : Bool :=
  match parseBasicAuth (request.get (ascii "Proxy-Authorization")) with
  | none => false
  | some (user, pass) => hasAccount config.accounts user pass

/-- What is to be done with a request. A plain one has the stream behind its headers. -/
inductive Route where
  | fail (err : Error)
  | unauthorized
  | malformed
  | connect (dest : Destination)
  | plain (dest : Destination) (keepAlive : Bool) (rest : Bytes)
  deriving DecidableEq

/-- The destination of a request. -/
def Request.destination (request : Request) : Except Error Destination :=
  let defaultPort := if equalFold request.scheme (ascii "https") then 443 else 80
  let host := if request.host = [] then request.urlHost else request.host
  match parseHost host defaultPort with
  | .error err => .error (.base (ascii "malformed proxy host: " ++ host) err)
  | .ok dest => .ok dest

/-- The handler of a request. A plain one has to name its host in the URL. -/
def Request.handler (request : Request) (config : ServerConfig) (dest : Destination) (rest : Bytes) :
    Route :=
  if equalFold request.method (ascii "CONNECT") then .connect dest
  else if ¬config.allowTransparent ∧ request.urlHost = [] then .malformed
  else
    .plain dest
      (trimSpace (toLower (request.get (ascii "Proxy-Connection"))) = ascii "keep-alive") rest

/-- `ProcessWithFirstbyte` from the reading of a request to its handlers. -/
def routeOf (packages : Packages) (config : ServerConfig) (input : Bytes) : Route :=
  match packages.readRequest input with
  | .error err => .fail (.base (ascii "failed to read http request") err)
  | .ok (request, rest) =>
      if 0 < accountsLen config.accounts ∧ ¬config.authorized request then .unauthorized
      else
        match request.destination with
        | .error err => .fail err
        | .ok dest => request.handler config dest rest

/-- What the servers do for a client: hand a request to the dispatcher, or let packets of a remote
address pass the filter. The stream is that of the client from the request on. -/
inductive Action where
  | dispatch (stream : Bytes) (dest : Destination)
  | register (stream remote : Bytes)
  deriving DecidableEq

def Action.stream : Action → Bytes
  | .dispatch stream _ => stream
  | .register stream _ => stream

/-- What was done, and what the server returns. -/
abbrev Served := List Action × Except Error Unit

/-- How the exchange of a plain request ends, with `errWaitAnother` or without, and the length of the body
that it took from the stream. -/
structure Round where
  body : Nat
  result : Except Error Bool

/-- `DispatchLink` of a stream. -/
def dispatchLink (dispatch : Destination → Option Error) (stream : Bytes) (dest : Destination) : Served :=
  ([.dispatch stream dest],
    match dispatch dest with
    | some err => .error (.base (ascii "failed to dispatch request") err)
    | none => .ok ())

def handleConnect (dispatch : Destination → Option Error) (dest : Destination) (conn : Conn) : Served :=
  match ((Talk.write (ascii "HTTP/1.1 200 Connection established" ++ [13, 10, 13, 10])).run conn).1 with
  | .error err => ([], .error (.base (ascii "failed to write back OK response") err))
  | .ok _ => dispatchLink dispatch conn.input dest

/-- The end of `handlePlainHTTP` and of the round it belongs to. What comes after the round is `again`. -/
def finishPlain (action : Action) (keepAlive : Bool) (result : Except Error Bool) (again : Served) :
    Served :=
  match result with
  | .error err => ([action], .error (.base (ascii "connection ends") err))
  | .ok another => if another && keepAlive then (action :: again.1, again.2) else ([action], .ok ())

/-- `ProcessWithFirstbyte`. An exchange that no round is given for fails with the connection. The answer to
a malformed request is given by its first line. -/
def processWithFirstbyte (packages : Packages) (config : ServerConfig)
    (dispatch : Destination → Option Error) (rounds : List Round) (conn : Conn) : Served :=
  match routeOf packages config conn.input with
  | .fail err => ([], .error err)
  | .unauthorized =>
      ([], ((Talk.write (ascii "HTTP/1.1 407 Proxy Authentication Required" ++ [13, 10] ++
        ascii "Proxy-Authenticate: Basic realm=\"proxy\"" ++ [13, 10, 13, 10])).run conn).1)
  | .malformed => ([], ((Talk.write (ascii "HTTP/1.1 400 Bad Request")).run conn).1)
  | .connect dest => handleConnect dispatch dest conn
  | .plain dest keepAlive rest =>
      let action := Action.dispatch conn.input dest
      match dispatch dest with
      | some err => ([action], .error err)
      | none =>
          match rounds with
          | [] => finishPlain action keepAlive (.error .eof) ([], .ok ())
          | round :: rounds =>
              finishPlain action keepAlive round.result
                (processWithFirstbyte packages config dispatch rounds
                  { conn with input := rest.drop round.body })

end V2RootCore.Http
