import V2RootCore.Conf.Int32Range
import V2RootCore.Net.Address

/-!
# Port lists

A list of ports is a JSON number or a text of items between commas. An item with a dash goes through `ParseUint`,
one without is itself read as JSON, and a JSON number is taken as it is.
-/

namespace V2RootCore.Conf

open Go Net

/-- `PortFromInt`. -/
def portFromInt (val : Nat) : Except Error Nat :=
  if 65535 < val then .error (.new (ascii "invalid port range: " ++ formatUint val)) else .ok val

/-- `PortFromString`. -/
def portFromString (s : Bytes) : Except Error Nat :=
  match parseUint s 32 with
  | some val => portFromInt val
  | none => .error (.new (ascii "invalid port range: " ++ s))

/-- What the parsers take from outside: the values of environment variables and the texts of JSON errors. -/
structure Outside where
  value : Bytes → Bytes
  jsonError : Bytes → Error

/-- `json.Unmarshal` into a `uint32` of a text without white space around it: a number has no leading zeros, and
a `null` leaves the variable as it is. -/
def unmarshalUint32 (outside : Outside) (data : Bytes) : Except Error Nat :=
  if data = ascii "null" then .ok 0
  else
    match parseUint data 32 with
    | some val => if formatUint val = data then .ok val else .error (outside.jsonError data)
    | none => .error (outside.jsonError data)

def parseIntPort (outside : Outside) (data : Bytes) : Except Error Nat := do
  let intPort ← unmarshalUint32 outside data
  portFromInt intPort

/-- The text `parseStringPort` splits. -/
def portText (outside : Outside) (s : Bytes) : Bytes :=
  if hasPrefix s (ascii "env:") then outside.value (s.drop 4) else s

def parseStringPort (outside : Outside) (s : Bytes) : Except Error (Nat × Nat) :=
  match splitTwo 45 (portText outside s) with
  | none => do
      let port ← portFromString (portText outside s)
      .ok (port, port)
  | some (left, right) => do
      let fromPort ← portFromString left
      let toPort ← portFromString right
      .ok (fromPort, toPort)

/-- `From` and `To` of a `PortRange`. -/
structure PortRange where
  lower : Nat
  upper : Nat
  deriving DecidableEq

def PortRange.string (port : PortRange) : Bytes :=
  if port.lower = port.upper then formatUint port.lower else formatUint port.lower ++ 45 :: formatUint port.upper

/-- `Contains` of a `MemoryPortRange`, whose ends have 16 bits. -/
def PortRange.contains (r : PortRange) (port : UInt16) : Bool :=
  r.lower % 2 ^ 16 ≤ port.toNat && port.toNat ≤ r.upper % 2 ^ 16

/-- What stands in the JSON for a list of ports. A `null` is the empty text. -/
inductive PortJson where
  | text (s : Bytes)
  | number (n : Nat)
  | other (data : Bytes)

namespace PortList

/-- One item of the list. -/
def parseItem (outside : Outside) (trimmed : Bytes) : Except Error PortRange :=
  if contains trimmed [45] || contains trimmed (ascii "env:") then
    match parseStringPort outside trimmed with
    | .ok (lower, upper) => .ok ⟨lower, upper⟩
    | .error err => .error (.base (ascii "invalid port range: " ++ trimmed) err)
  else
    match parseIntPort outside trimmed with
    | .ok port => .ok ⟨port, port⟩
    | .error err => .error (.base (ascii "invalid port: " ++ trimmed) err)

/-- The items that are not skipped. -/
def items (listStr : Bytes) : List Bytes := ((listStr.splitOn 44).map trimSpace).filter (· ≠ [])

/-- `UnmarshalJSON` of a list without ranges. -/
def unmarshalJSON (outside : Outside) : PortJson → Except Error (List PortRange)
  | .text listStr => (items listStr).mapM (parseItem outside)
  | .number n =>
      if n < 2 ^ 32 then .ok (if n ≠ 0 then [⟨n, n⟩] else []) else invalid (formatUint n)
  | .other data => invalid data
where
  invalid (data : Bytes) : Except Error (List PortRange) :=
    .error (.base (ascii "invalid port: " ++ data) (outside.jsonError data))

def string (ranges : List PortRange) : Bytes := [44].intercalate (ranges.map PortRange.string)

/-- `json.Marshal` of an `int`. -/
def marshalInt (port : Int) : PortJson := if port < 0 then .other (Int32Range.itoa port) else .number port.toNat

def marshalJSON (ranges : List PortRange) : PortJson :=
  match atoi (string ranges) with
  | .ok port => marshalInt port
  | .error _ => .text (string ranges)

/-- `Contains` of a `MemoryPortList`. -/
def contains (ranges : List PortRange) (port : UInt16) : Bool := ranges.any fun r => r.contains port

end PortList

end V2RootCore.Conf
