import V2RootCore.Go.Io

/-!
# Addresses and their wire format

Network addresses and destinations, the parsing of address texts, and the serializer of addresses and
ports that the proxy protocols share. `net.ParseIP` is that of the standard library.
-/

namespace V2RootCore.Net

open Go

def parseIPv4Field (s : Bytes) : Option UInt8 :=
  if 1 < s.length ∧ s.head? = some 48 then none else (parseUint s 8).map UInt8.ofNat

def parseIPv4Fields (s : Bytes) : Option Bytes :=
  let fields := s.splitOn 46
  if fields.length = 4 then fields.mapM parseIPv4Field else none

def hexDigit (c : UInt8) : Option Nat :=
  if isDigit c then some (c.toNat - 48)
  else if 97 ≤ c ∧ c ≤ 102 then some (c.toNat - 87)
  else if 65 ≤ c ∧ c ≤ 70 then some (c.toNat - 55)
  else none

/-- The groups of an IPv6 address, from the second half of the address on its way. The result has the
bytes so far, the place of the ellipsis and what was not read. -/
def parseIPv6Groups : Nat → Bytes → Option Nat → Bytes → Option (Bytes × Option Nat × Bytes)
  | 0, ip, ellipsis, s => some (ip, ellipsis, s)
  | groups + 1, ip, ellipsis, s =>
      let digits := s.takeWhile fun c => (hexDigit c).isSome
      if digits = [] ∨ 4 < digits.length then none
      else
        let group := digits.foldl (fun n c => 16 * n + (hexDigit c).getD 0) 0
        let ip' := ip ++ putUint16 (UInt16.ofNat group)
        match s.drop digits.length with
        | 46 :: _ =>
            if (ellipsis = none ∧ ip.length ≠ 12) ∨ 16 < ip.length + 4 then none
            else (parseIPv4Fields s).map fun fields => (ip ++ fields, ellipsis, [])
        | [] => some (ip', ellipsis, [])
        | [58] => none
        | 58 :: 58 :: rest =>
            if ellipsis.isSome then none
            else if rest = [] then some (ip', some ip'.length, [])
            else parseIPv6Groups groups ip' (some ip'.length) rest
        | 58 :: rest => parseIPv6Groups groups ip' ellipsis rest
        | _ => none

def parseIPv6 (s : Bytes) : Option Bytes :=
  let leading := hasPrefix s [58, 58]
  if leading ∧ s.length = 2 then some (List.replicate 16 0)
  else
    match parseIPv6Groups 8 [] (if leading then some 0 else none)
        (if leading then s.drop 2 else s) with
    | some (ip, some ellipsis, []) =>
        if ip.length < 16 then
          some (ip.take ellipsis ++ List.replicate (16 - ip.length) 0 ++ ip.drop ellipsis)
        else none
    | some (ip, none, []) => if ip.length < 16 then none else some ip
    | _ => none

def v4InV6Prefix : Bytes := List.replicate 10 0 ++ [0xFF, 0xFF]

/-- `To4`. -/
def to4 (ip : Bytes) : Option Bytes :=
  if ip.length = 4 then some ip
  else if ip.length = 16 ∧ ip.take 12 = v4InV6Prefix then some (ip.drop 12)
  else none

/-- `net.ParseIP`: sixteen bytes, an IPv4 address in its mapped form. Zones are not taken. -/
def parseIP (s : Bytes) : Option Bytes :=
  match s.find? fun c => c = 46 ∨ c = 58 ∨ c = 37 with
  | some 46 => (parseIPv4Fields s).map (v4InV6Prefix ++ ·)
  | some 58 => if 37 ∈ s then none else parseIPv6 s
  | _ => none

inductive AddressFamily where
  | ipv4
  | ipv6
  | domain
  deriving DecidableEq, Repr

inductive Address where
  | ipv4 (ip : List.Vector UInt8 4)
  | ipv6 (ip : List.Vector UInt8 16)
  | domain (name : Bytes)
  deriving DecidableEq

def Address.family : Address → AddressFamily
  | .ipv4 _ => .ipv4
  | .ipv6 _ => .ipv6
  | .domain _ => .domain

def AddressFamily.isIP (family : AddressFamily) : Bool := family = .ipv4 || family = .ipv6

/-- `IPAddress` on sixteen bytes: a mapped IPv4 address becomes an IPv4 address. -/
def ipAddress (ip : List.Vector UInt8 16) : Address :=
  if ip.toList.take 12 = v4InV6Prefix then .ipv4 ⟨ip.toList.drop 12, by simp⟩ else .ipv6 ip

/-- The white space of `unicode.IsSpace`, in UTF-8. -/
def spaces : List Bytes :=
  [[9], [10], [11], [12], [13], [32], [0xC2, 0x85], [0xC2, 0xA0], [0xE1, 0x9A, 0x80]] ++
    ((List.range 11).map fun n => [0xE2, 0x80, 0x80 + UInt8.ofNat n]) ++
    [[0xE2, 0x80, 0xA8], [0xE2, 0x80, 0xA9], [0xE2, 0x80, 0xAF], [0xE2, 0x81, 0x9F], [0xE3, 0x80, 0x80]]

def trimStart (runes : List Bytes) : Nat → Bytes → Bytes
  | 0, s => s
  | n + 1, s =>
      match runes.find? fun rune => hasPrefix s rune with
      | some rune => trimStart runes n (s.drop rune.length)
      | none => s

/-- `strings.TrimSpace`. -/
def trimSpace (s : Bytes) : Bytes :=
  let s := trimStart spaces s.length s
  (trimStart (spaces.map List.reverse) s.length s.reverse).reverse

/-- `ParseAddress`. -/
def parseAddress (addr : Bytes) : Address :=
  let addr :=
    if addr.head? = some 91 ∧ addr.getLast? = some 93 then (addr.drop 1).dropLast else addr
  let addr :=
    if addr.head?.any (fun c => !isAlphanumeric c) || addr.getLast?.any (fun c => !isAlphanumeric c)
    then trimSpace addr else addr
  match parseIP addr with
  | some ip => if h : ip.length = 16 then ipAddress ⟨ip, h⟩ else .domain addr
  | none => .domain addr

inductive Network where
  | unknown
  | tcp
  | udp
  | unix
  deriving DecidableEq, Repr

/-- A `Destination`. Its zero value has no address. -/
structure Destination where
  address : Option Address := none
  port : UInt16 := 0
  network : Network := .unknown
  deriving DecidableEq

def tcpDestination (address : Address) (port : UInt16) : Destination :=
  { address := some address, port, network := .tcp }

def udpDestination (address : Address) (port : UInt16) : Destination :=
  { address := some address, port, network := .udp }

/-- What `NewAddressParser` makes of its options. -/
structure AddressParser where
  families : List (UInt8 × AddressFamily)
  portFirst : Bool := false
  typeParser : UInt8 → UInt8 := id

namespace AddressParser

/-- `addrTypeMap`, where a later option replaces an earlier one. -/
def addrType (p : AddressParser) (byte : UInt8) : Option AddressFamily :=
  p.families.reverse.lookup byte

/-- `addrByteMap`. -/
def addrByte (p : AddressParser) (family : AddressFamily) : Option UInt8 :=
  (p.families.reverse.find? fun entry => entry.2 = family).map Prod.fst

def maybeIPPrefix (b : UInt8) : Bool := b = 91 || isDigit b

def isValidDomain (d : Bytes) : Bool := d.all fun c => isAlphanumeric c || c = 45 || c = 46 || c = 95

def isDomainTooLong (domain : Bytes) : Bool := 256 < domain.length

/-- The end of `readAddress` for a domain. -/
def checkDomain (domain : Bytes) : Except Error Address :=
  let addr := parseAddress domain
  if domain.head?.any maybeIPPrefix && addr.family.isIP then .ok addr
  else if isValidDomain domain then .ok (.domain domain)
  else .error (.new (ascii "invalid domain name: " ++ domain))

/-- `readAddress`. The buffer `b` holds what was read before; a domain of length zero is taken to be
all of its content, the type and length bytes included. -/
def readAddressFrom {m : Type → Type} [Monad m] (read : (n : Nat) → m (List.Vector UInt8 n))
    (lift : Except Error Address → m Address) (p : AddressParser) (b : Bytes) : m Address := do
  let typeByte ← read 1
  let addrType := p.typeParser typeByte.head
  match p.addrType addrType with
  | none => lift (.error (.new (ascii "unknown address type: " ++ formatUint addrType.toNat)))
  | some .ipv4 =>
      let ip ← read 4
      pure (.ipv4 ip)
  | some .ipv6 =>
      let ip ← read 16
      pure (ipAddress ip)
  | some .domain =>
      let domainLength ← read 1
      let domain ← read domainLength.head.toNat
      lift (checkDomain
        (if domainLength.head = 0 then b ++ typeByte.toList ++ domainLength.toList else domain.toList))

/-- `ReadAddressPort`. -/
def readAddressPortFrom {m : Type → Type} [Monad m] (read : (n : Nat) → m (List.Vector UInt8 n))
    (lift : Except Error Address → m Address) (p : AddressParser) : m (Address × UInt16) :=
  if p.portFirst then do
    let port ← read 2
    let addr ← p.readAddressFrom read lift port.toList
    pure (addr, uint16 port.toList)
  else do
    let addr ← p.readAddressFrom read lift []
    let port ← read 2
    pure (addr, uint16 port.toList)

/-- `readAddress` from bytes, with the bytes behind the address. -/
def readAddress (p : AddressParser) (b : Bytes) : StateT Bytes (Except Error) Address :=
  p.readAddressFrom readFull StateT.lift b

def readAddressPort (p : AddressParser) : StateT Bytes (Except Error) (Address × UInt16) :=
  p.readAddressPortFrom readFull StateT.lift

/-- `writeAddress`, which writes nothing before it fails. Without an address it panics. -/
def writeAddress (p : AddressParser) : Option Address → Except Error Bytes
  | none => .error .panicked
  | some address =>
      match p.addrByte address.family with
      | none => .error (.new (ascii "unknown address family"))
      | some tb =>
          match address with
          | .ipv4 ip => .ok (tb :: ip.toList)
          | .ipv6 ip => .ok (tb :: ip.toList)
          | .domain domain =>
              if isDomainTooLong domain then
                .error (.new (ascii "Super long domain is not supported: " ++ domain))
              else .ok (tb :: UInt8.ofNat domain.length :: domain)

/-- `WriteAddressPort`, as what it has written if it does not fail. -/
def writeAddressPort (p : AddressParser) (address : Option Address) (port : UInt16) :
    Except Error Bytes := do
  let content ← p.writeAddress address
  .ok (if p.portFirst then putUint16 port ++ content else content ++ putUint16 port)

end AddressParser

end V2RootCore.Net
