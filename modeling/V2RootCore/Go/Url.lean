import Mathlib.Data.List.Sort
import V2RootCore.Go.Map

/-!
# Parsing and escaping URLs

`net/url`: the escaping modes, `Parse` down to user, host, query and fragment, and query strings. A
URL's scheme and path are checked as `Parse` checks them and then dropped.
-/

namespace V2RootCore.Go.Url

/-- The part of a URL a string is escaped for. -/
inductive Encoding where
  | path
  | pathSegment
  | host
  | zone
  | userPassword
  | queryComponent
  | fragment
  deriving DecidableEq, Repr

inductive Error where
  | escape (s : Bytes)
  | invalidHost (c : UInt8)
  | invalidControlCharacter
  | missingProtocolScheme
  | firstPathSegmentContainsColon
  | missingBracket
  | invalidPort (colonPort : Bytes)
  | invalidUserinfo
  deriving DecidableEq, Repr

/-! ### Escaping -/

def isHex (c : UInt8) : Bool := isDigit c || (97 ≤ c && c ≤ 102) || (65 ≤ c && c ≤ 70)

def unhex (c : UInt8) : UInt8 :=
  if isDigit c then c - 48 else if 97 ≤ c ∧ c ≤ 102 then c - 87 else c - 55

def upperhex (digit : UInt8) : UInt8 := if digit < 10 then digit + 48 else digit + 55

def isHostMode (mode : Encoding) : Bool := mode = .host || mode = .zone

def shouldEscape (c : UInt8) (mode : Encoding) : Bool :=
  if isAlphanumeric c then false
  else if isHostMode mode ∧ c ∈ ascii "!$&'()*+,;=:[]<>\"" then false
  else if c ∈ ascii "-_.~" then false
  else if c ∈ ascii "$&+,/:;=?@" then
    match mode with
    | .path => c == 63
    | .pathSegment => c ∈ ascii "/;,?"
    | .userPassword => c ∈ ascii "@/?:"
    | .queryComponent => true
    | .fragment => false
    | .host | .zone => true
  else if mode = .fragment ∧ c ∈ ascii "!()*" then false
  else true

def escapeByte (mode : Encoding) (c : UInt8) : Bytes :=
  if c = 32 ∧ mode = .queryComponent then [43]
  else if shouldEscape c mode then [37, upperhex (c >>> 4), upperhex (c &&& 15)]
  else [c]

def escape (s : Bytes) (mode : Encoding) : Bytes := s.flatMap (escapeByte mode)

def queryEscape (s : Bytes) : Bytes := escape s .queryComponent

def pathEscape (s : Bytes) : Bytes := escape s .pathSegment

/-- Whether `%xy` may stand in a part: a host may only escape bytes that are not ASCII, and a percent
sign before a zone; a zone may escape what it could also hold as it is, and a space. -/
def escapeAllowed (x y : UInt8) (mode : Encoding) : Bool :=
  let percent := x == 50 && y == 53
  match mode with
  | .host => !decide (unhex x < 8) || percent
  | .zone =>
      let c := unhex x <<< 4 ||| unhex y
      percent || c == 32 || !shouldEscape c .host
  | _ => true

def unescape (s : Bytes) (mode : Encoding) : Except Error Bytes :=
  match s with
  | [] => .ok []
  | c :: rest =>
      if c = 37 then
        match rest with
        | x :: y :: rest =>
            if isHex x && isHex y && escapeAllowed x y mode then
              (unescape rest mode).map ((unhex x <<< 4 ||| unhex y) :: ·)
            else .error (.escape [37, x, y])
        | short => .error (.escape (37 :: short))
      else if c = 43 ∧ mode = .queryComponent then (unescape rest mode).map (32 :: ·)
      else if isHostMode mode ∧ c < 0x80 ∧ shouldEscape c mode then .error (.invalidHost c)
      else (unescape rest mode).map (c :: ·)

def pathUnescape (s : Bytes) : Except Error Bytes := unescape s .pathSegment

def queryUnescape (s : Bytes) : Except Error Bytes := unescape s .queryComponent

/-! ### Query strings -/

/-- `url.Values`, as its key-value pairs. The pairs of one key are in the order of its values. -/
abbrev Values := Map Bytes

namespace Values

def get (values : Values) (key : Bytes) : Bytes := (values.lookup key).getD []

def encodePair (pair : Bytes × Bytes) : Bytes :=
  queryEscape pair.1 ++ 61 :: queryEscape pair.2

/-- `Encode`, sorted by key. -/
def encode (values : Values) : Bytes :=
  [38].intercalate ((values.insertionSort fun a b => a.1 ≤ b.1).map encodePair)

end Values

/-- One `key=value` of a query string. Those with a semicolon or a malformed escape are skipped. -/
def parsePair (piece : Bytes) : Option (Bytes × Bytes) :=
  if 59 ∈ piece ∨ piece = [] then none
  else
    match queryUnescape (cut 61 piece).1, queryUnescape (cut 61 piece).2 with
    | .ok key, .ok value => some (key, value)
    | _, _ => none

/-- `ParseQuery`, without the error it reports besides. -/
def parseQuery (query : Bytes) : Values := (query.splitOn 38).filterMap parsePair

/-! ### URLs -/

structure Userinfo where
  username : Bytes
  password : Option Bytes := none
  deriving DecidableEq, Repr

def Userinfo.string (user : Userinfo) : Bytes :=
  if user.username ≠ [] ∨ user.password.isSome then
    escape user.username .userPassword ++
      match user.password with
      | some password => 58 :: escape password .userPassword
      | none => []
  else []

structure URL where
  user : Option Userinfo := none
  host : Bytes := []
  rawQuery : Bytes := []
  fragment : Bytes := []
  deriving DecidableEq, Repr

/-- `User.Username()`, which is empty for a nil user. -/
def URL.username (u : URL) : Bytes := (u.user.map Userinfo.username).getD []

def URL.query (u : URL) : Values := parseQuery u.rawQuery

/-- A colon and digits, or nothing. -/
def validOptionalPort : Bytes → Bool
  | [] => true
  | c :: rest => c == 58 && rest.all isDigit

def stripBrackets (host : Bytes) : Bytes :=
  if host.head? = some 91 ∧ host.getLast? = some 93 then (host.drop 1).dropLast else host

def splitHostPort (hostPort : Bytes) : Bytes × Bytes :=
  match cutLast 58 hostPort with
  | some (host, port) =>
      if port.all isDigit then (stripBrackets host, port) else (stripBrackets hostPort, [])
  | none => (stripBrackets hostPort, [])

def URL.hostname (u : URL) : Bytes := (splitHostPort u.host).1

def URL.port (u : URL) : Bytes := (splitHostPort u.host).2

/-- What comes before the first `%25`, and the rest from there on. -/
def cutZone (s : Bytes) : Option (Bytes × Bytes) :=
  match s with
  | [] => none
  | c :: rest =>
      if (ascii "%25").isPrefixOf (c :: rest) then some ([], c :: rest)
      else (cutZone rest).map fun (before, zone) => (c :: before, zone)

def parseHost (host : Bytes) : Except Error Bytes :=
  if host.head? = some 91 then
    match cutLast 93 host with
    | none => .error .missingBracket
    | some (inside, colonPort) =>
        if validOptionalPort colonPort then
          match cutZone inside with
          | some (before, zone) => do
              let host₁ ← unescape before .host
              let host₂ ← unescape zone .zone
              let host₃ ← unescape (93 :: colonPort) .host
              .ok (host₁ ++ host₂ ++ host₃)
          | none => unescape host .host
        else .error (.invalidPort colonPort)
  else
    match cutLast 58 host with
    | some (_, port) =>
        if port.all isDigit then unescape host .host else .error (.invalidPort (58 :: port))
    | none => unescape host .host

/-- The bytes a user name and a password may be written with. -/
def isUserinfoByte (c : UInt8) : Bool := isAlphanumeric c || c ∈ ascii "-._:~!$&'()*+,;=%@"

def validUserinfo (s : Bytes) : Bool := s.all isUserinfoByte

def parseUserinfo (userinfo : Bytes) : Except Error Userinfo :=
  if validUserinfo userinfo then
    if 58 ∈ userinfo then do
      let username ← unescape (cut 58 userinfo).1 .userPassword
      let password ← unescape (cut 58 userinfo).2 .userPassword
      .ok { username, password := some password }
    else do
      let username ← unescape userinfo .userPassword
      .ok { username }
  else .error .invalidUserinfo

def parseAuthority (authority : Bytes) : Except Error (Option Userinfo × Bytes) :=
  match cutLast 64 authority with
  | none => do
      let host ← parseHost authority
      .ok (none, host)
  | some (userinfo, host) => do
      let host ← parseHost host
      let user ← parseUserinfo userinfo
      .ok (some user, host)

def isSchemeByte (c : UInt8) : Bool := isAlphanumeric c || c ∈ ascii "+-."

/-- The scheme, empty if there is none, and what follows it. -/
def getScheme (raw : Bytes) : Except Error (Bytes × Bytes) :=
  let scheme := raw.takeWhile isSchemeByte
  match raw.dropWhile isSchemeByte with
  | 58 :: rest =>
      match scheme with
      | [] => .error .missingProtocolScheme
      | c :: _ => if isLetter c then .ok (scheme, rest) else .ok ([], raw)
  | _ => .ok ([], raw)

def isControl (c : UInt8) : Bool := c < 0x20 || c == 0x7F

/-- A URL without its fragment. A lone question mark at the end sets `ForceQuery` and leaves the
query empty, which is what cutting at it does here. -/
def parseUnfragmented (raw : Bytes) : Except Error URL :=
  if raw.any isControl then .error .invalidControlCharacter
  else if raw = ascii "*" then .ok {}
  else do
    let (scheme, rest) ← getScheme raw
    let (rest, rawQuery) := cut 63 rest
    if !hasPrefix rest (ascii "/") && scheme ≠ [] then .ok { rawQuery }
    else if !hasPrefix rest (ascii "/") && 58 ∈ (cut 47 rest).1 then
      .error .firstPathSegmentContainsColon
    else if (scheme ≠ [] || !hasPrefix rest (ascii "///")) && hasPrefix rest (ascii "//") then do
      let (user, host) ← parseAuthority ((rest.drop 2).takeWhile (· ≠ 47))
      let _ ← unescape ((rest.drop 2).dropWhile (· ≠ 47)) .path
      .ok { user, host, rawQuery }
    else do
      let _ ← unescape rest .path
      .ok { rawQuery }

def parse (raw : Bytes) : Except Error URL := do
  let url ← parseUnfragmented (cut 35 raw).1
  let fragment ← unescape (cut 35 raw).2 .fragment
  .ok { url with fragment }

end V2RootCore.Go.Url
