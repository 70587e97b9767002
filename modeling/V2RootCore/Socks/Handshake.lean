import V2RootCore.Http.Server
import V2RootCore.Socks.Udp

/-!
# Handshakes of SOCKS 4 and 5

The server's side, for all versions.
-/

namespace V2RootCore.Socks

open Go Buf Net

def socks5Version : UInt8 := 0x05
def socks4Version : UInt8 := 0x04

def cmdTCPConnect : UInt8 := 0x01
def cmdTCPBind : UInt8 := 0x02
def cmdUDPAssociate : UInt8 := 0x03
def cmdTorResolve : UInt8 := 0xF0
def cmdTorResolvePTR : UInt8 := 0xF1

def socks4RequestGranted : UInt8 := 90
def socks4RequestRejected : UInt8 := 91

def authNotRequired : UInt8 := 0x00
def authPassword : UInt8 := 0x02
def authNoMatchingMethod : UInt8 := 0xFF

def statusSuccess : UInt8 := 0x00
def statusCmdNotSupport : UInt8 := 0x07

inductive AuthType where
  | noAuth
  | password
  deriving DecidableEq

/-- `ServerConfig`. The map of the accounts may be nil. -/
structure ServerConfig where
  authType : AuthType
  accounts : Option (Map Bytes) := none
  address : Option Address := none
  udpEnabled : Bool := false

def ServerConfig.hasAccount (config : ServerConfig) (username password : Bytes) : Bool :=
  Http.hasAccount config.accounts username password

inductive RequestCommand where
  | tcp
  | udp
  deriving DecidableEq

/-- What the handshakes use of a `RequestHeader`. The user of the server is known by the email. -/
structure RequestHeader where
  version : UInt8
  command : RequestCommand
  address : Address
  port : UInt16
  email : Option Bytes := none
  deriving DecidableEq

structure ServerSession where
  config : ServerConfig
  address : Option Address
  port : UInt16
  localAddress : Address

/-- `AnyIP`. -/
def anyIP : List.Vector UInt8 4 := ⟨[0, 0, 0, 0], rfl⟩

def writeSocks5AuthenticationResponse (version auth : UInt8) : Bytes := [version, auth]

/-- `writeSocks5Response`, as what it writes. -/
def writeSocks5Response (errCode : UInt8) (address : Option Address) (port : UInt16) :
    Except Error Bytes := do
  let content ← addrParser.writeAddressPort address port
  .ok ([socks5Version, errCode, 0x00] ++ content)

/-- `writeSocks4Response`, as what it writes. -/
def writeSocks4Response (errCode : UInt8) (address : List.Vector UInt8 4) (port : UInt16) : Bytes :=
  [0x00, errCode] ++ putUint16 port ++ address.toList

/-- A response to a command the server does not have. -/
def refuseCommand (text : Bytes) : Talk RequestHeader := do
  let response ← Talk.lift (writeSocks5Response statusCmdNotSupport (some (.ipv4 anyIP)) 0)
  Talk.tryWrite response
  Talk.fail (.new text)

/-- The rounds of `ReadUntilNull`, with the room that is left in the buffer. -/
def readUntilNullRounds : Nat → Bytes → Talk Bytes
  | 0, _ => Talk.fail (.new (ascii "buffer overrun"))
  | room + 1, b => do
      let byte ← Talk.read 1
      if byte.head = 0x00 then pure b else readUntilNullRounds room (b ++ byte.toList)

def readUntilNull : Talk Bytes := readUntilNullRounds size []

def readUsernamePassword : Talk (Bytes × Bytes) := do
  let start ← Talk.read 2
  let nUsername := start.toList.getD 1 0
  let username ← Talk.read nUsername.toNat
  let nPassword ← Talk.read 1
  let password ← Talk.read nPassword.head.toNat
  pure (username.toList, password.toList)

def hasAuthMethod (expectedAuth : UInt8) (authCandidates : Bytes) : Bool := expectedAuth ∈ authCandidates

namespace ServerSession

def handshake4 (s : ServerSession) (cmd : UInt8) : Talk RequestHeader :=
  if s.config.authType = .password then do
    Talk.tryWrite (writeSocks4Response socks4RequestRejected anyIP 0)
    Talk.fail (.new (ascii "socks 4 is not allowed when auth is required."))
  else do
    let header ← (Talk.read 6).orFail (ascii "insufficient header")
    let port := uint16 header.toList
    let ip : List.Vector UInt8 4 := ⟨header.toList.drop 2, by simp⟩
    let _ ← readUntilNull
    let address ←
      if ip.head = 0x00 then do
        let domain ← readUntilNull.orFail (ascii "failed to read domain for socks 4a")
        pure (parseAddress domain)
      else pure (.ipv4 ip)
    if cmd = cmdTCPConnect then do
      Talk.write (writeSocks4Response socks4RequestGranted anyIP 0)
      pure { version := socks4Version, command := .tcp, address, port }
    else do
      Talk.tryWrite (writeSocks4Response socks4RequestRejected anyIP 0)
      Talk.fail (.new (ascii "unsupported command: " ++ formatUint cmd.toNat))

/-- `auth5` from the user name and password on. -/
def checkAccount (s : ServerSession) : Talk Bytes := do
  let (username, password) ← readUsernamePassword.orFail
    (ascii "failed to read username and password for authentication")
  if s.config.hasAccount username password then do
    (Talk.write (writeSocks5AuthenticationResponse 0x01 0x00)).orFail
      (ascii "failed to write auth response")
    pure username
  else do
    Talk.tryWrite (writeSocks5AuthenticationResponse 0x01 0xFF)
    Talk.fail (.new (ascii "invalid username or password"))

def auth5 (s : ServerSession) (nMethod : UInt8) : Talk Bytes := do
  let methods ← (Talk.read nMethod.toNat).orFail (ascii "failed to read auth methods")
  let expectedAuth := if s.config.authType = .password then authPassword else authNotRequired
  if hasAuthMethod expectedAuth methods.toList then do
    (Talk.write (writeSocks5AuthenticationResponse socks5Version expectedAuth)).orFail
      (ascii "failed to write auth response")
    if expectedAuth = authPassword then s.checkAccount else pure []
  else do
    Talk.tryWrite (writeSocks5AuthenticationResponse socks5Version authNoMatchingMethod)
    Talk.fail (.new (ascii "no matching auth method"))

/-- The switch of `handshake5` over the command. -/
def commandOf (s : ServerSession) (cmd : UInt8) : Except Bytes RequestCommand :=
  if cmd = cmdTCPConnect ∨ cmd = cmdTorResolve ∨ cmd = cmdTorResolvePTR then .ok .tcp
  else if cmd = cmdUDPAssociate then
    if s.config.udpEnabled then .ok .udp else .error (ascii "UDP is not enabled.")
  else if cmd = cmdTCPBind then .error (ascii "TCP bind is not supported.")
  else .error (ascii "unknown command " ++ formatUint cmd.toNat)

/-- The address in the response to a command. -/
def responseAddress (s : ServerSession) : RequestCommand → Option Address
  | .tcp => s.address
  | .udp => some (s.config.address.getD s.localAddress)

/-- `handshake5` after the authentication. -/
def request5 (s : ServerSession) (username : Bytes) : Talk RequestHeader := do
  let start ← (Talk.read 3).orFail (ascii "failed to read request")
  match s.commandOf (start.toList.getD 1 0) with
  | .error text => refuseCommand text
  | .ok command => do
      let (address, port) ←
        (addrParser.readAddressPortFrom Talk.read Talk.lift).orFail (ascii "failed to read address")
      let response ← Talk.lift (writeSocks5Response statusSuccess (s.responseAddress command) s.port)
      Talk.write response
      pure
        { version := socks5Version, command, address, port,
          email := if username = [] then none else some username }

def handshake5 (s : ServerSession) (nMethod : UInt8) : Talk RequestHeader := do
  let username ← s.auth5 nMethod
  s.request5 username

def handshake (s : ServerSession) : Talk RequestHeader := do
  let start ← (Talk.read 2).orFail (ascii "insufficient header")
  let version := start.toList.getD 0 0
  let cmd := start.toList.getD 1 0
  if version = socks4Version then s.handshake4 cmd
  else if version = socks5Version then s.handshake5 cmd
  else Talk.fail (.new (ascii "unknown Socks version: " ++ formatUint version.toNat))

end ServerSession

end V2RootCore.Socks
