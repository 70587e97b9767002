import V2RootCore.Http.Server
import V2RootCore.Tls.Sniff

/-!
# The HTTP sniffer

It is called again with more bytes as long as it has no clue. The attributes of the content are left out.
-/

namespace V2RootCore.Http

open Go Net

def errNotHTTPMethod : Error := .new (ascii "not an HTTP method")

def methods : List Bytes :=
  [ascii "get", ascii "post", ascii "head", ascii "put", ascii "delete", ascii "options", ascii "connect"]

/-- `beginWithHTTPMethod`, with the methods that are left. -/
def beginsWith (b : Bytes) : List Bytes → Option Error
  | [] => some errNotHTTPMethod
  | m :: rest =>
      if m.length ≤ b.length ∧ equalFold (b.take m.length) m then none
      else if b.length < m.length then some Tls.errNoClue
      else beginsWith b rest

def beginWithHTTPMethod (b : Bytes) : Option Error := beginsWith b methods

/-- `strings.ToLower` and `IP.String` of the standard library. -/
structure Texts where
  toLower : Bytes → Bytes
  ipString : Bytes → Bytes

/-- `Address.String`. -/
def Texts.addressString (texts : Texts) : Address → Bytes
  | .ipv4 ip => texts.ipString ip.toList
  | .ipv6 ip => [91] ++ texts.ipString ip.toList ++ [93]
  | .domain name => name

/-- The host of a line with the key `host`, or why it has none. -/
def headerHost (texts : Texts) (header : Bytes) : Option (Except Error Bytes) :=
  match splitTwo 58 header with
  | none => none
  | some (key, value) =>
      if texts.toLower key = ascii "host" then
        some <| (parseHost (texts.toLower (trimSpace value)) 80).map fun dest =>
          (dest.address.map texts.addressString).getD []
      else none

/-- The loop over the lines after the first one. -/
def sniffHeaders (texts : Texts) : List Bytes → Bytes → Except Error Bytes
  | [], host => .ok host
  | header :: rest, host =>
      if header = [] then .ok host
      else
        match headerHost texts header with
        | none => sniffHeaders texts rest host
        | some (.error err) => .error err
        | some (.ok host) => sniffHeaders texts rest host

/-- `SniffHTTP`: the domain that is found. -/
def sniffHTTP (texts : Texts) (b : Bytes) : Except Error Bytes :=
  match beginWithHTTPMethod b with
  | some err => .error err
  | none => do
      let host ← sniffHeaders texts ((b.splitOn 10).drop 1) []
      if host ≠ [] then .ok host else .error Tls.errNoClue

end V2RootCore.Http
