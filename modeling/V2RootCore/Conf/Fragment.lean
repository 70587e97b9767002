import V2RootCore.Freedom.Fragment

/-!
# Configuration of the fragmentation

The fragment of `FreedomConfig.Build` and the ranges of `common.go` it is made of. A section of the JSON that is
missing or null is none.
-/

namespace V2RootCore.Conf

open Go Freedom

def splitFromSecondDash (s : Bytes) : Option (Bytes × Bytes) :=
  match splitTwo 45 s with
  | none => none
  | some (first, rest) => (splitTwo 45 rest).map fun (second, third) => (first ++ 45 :: second, third)

def parseRangeString (str : Bytes) : Except Error (Int × Int) :=
  match atoi str with
  | .ok value => .ok (value, value)
  | .error _ =>
      if str = [] then .ok (0, 0)
      else
        match if hasPrefix str [45] then splitFromSecondDash str else splitTwo 45 str with
        | some (left, right) =>
            match atoi left, atoi right with
            | .ok left, .ok right => .ok (left, right)
            | _, _ => .error (.new (ascii "invalid range string: " ++ str))
        | none => .error (.new (ascii "invalid range string: " ++ str))

/-- `From` and `To` of an `Int32Range`. -/
structure Int32Range where
  lower : Int32
  upper : Int32
  ordered : lower ≤ upper

namespace Int32Range

def ensureOrder (left right : Int32) : Int32Range :=
  if h : left > right then ⟨right, left, Int32.le_of_lt h⟩ else ⟨left, right, Int32.not_lt.mp h⟩

/-- What stands in the JSON for a range. -/
inductive Json where
  | string (s : Bytes)
  | integer (n : Int)
  | other

/-- `Left` and `Right`. -/
structure Ends where
  left : Int32
  right : Int32
  deriving DecidableEq

/-- `UnmarshalJSON`, before it orders the ends. -/
def unmarshalEnds : Json → Except Error Ends
  | .string s =>
      match parseRangeString s with
      | .ok (left, right) => .ok ⟨.ofInt left, .ofInt right⟩
      | .error _ => invalid
  | .integer n => if -2 ^ 31 ≤ n ∧ n < 2 ^ 31 then .ok ⟨.ofInt n, .ofInt n⟩ else invalid
  | .other => invalid
where
  invalid : Except Error Ends := .error <| .new <| ascii
    "Invalid integer range, expected either string of form \"1-2\" or plain integer."

def Ends.range (v : Ends) : Int32Range := ensureOrder v.left v.right

/-- `UnmarshalJSON`. -/
def unmarshalJSON (v : Json) : Except Error Int32Range := do
  let ends ← unmarshalEnds v
  .ok ends.range

end Int32Range

/-- The conversion of an `int32` to a `uint64`. -/
def uint64OfInt32 (x : Int32) : UInt64 := x.toInt64.toUInt64

structure FragmentConfig where
  packets : Bytes
  length : Option Int32Range.Json
  interval : Option Int32Range.Json
  maxSplit : Option Int32Range.Json := none

namespace FragmentConfig

/-- `PacketsFrom` and `PacketsTo`. -/
def buildPackets (packets : Bytes) : Except Error (UInt64 × UInt64) :=
  if toLower packets = ascii "tlshello" then .ok (0, 1)
  else if toLower packets = [] then .ok (0, 0)
  else
    match parseRangeString packets with
    | .error err => .error (.base (ascii "Invalid PacketsFrom") err)
    | .ok (first, last) =>
        if (Int64.ofInt first).toUInt64 = 0 then .error (.new (ascii "PacketsFrom can't be 0"))
        else .ok ((Int64.ofInt first).toUInt64, (Int64.ofInt last).toUInt64)

/-- The JSON is read before the fragment is built. -/
def build (c : FragmentConfig) : Except Error Fragment := do
  let length ← c.length.mapM Int32Range.unmarshalJSON
  let interval ← c.interval.mapM Int32Range.unmarshalJSON
  let maxSplit ← c.maxSplit.mapM Int32Range.unmarshalJSON
  let (packetsFrom, packetsTo) ← buildPackets c.packets
  match length, interval with
  | none, _ => .error (.new (ascii "Length can't be empty"))
  | some length, interval =>
      if uint64OfInt32 length.lower = 0 then .error (.new (ascii "LengthMin can't be 0"))
      else
        match interval with
        | none => .error (.new (ascii "Interval can't be empty"))
        | some interval => .ok {
            packetsFrom
            packetsTo
            lengthMin := uint64OfInt32 length.lower
            lengthMax := uint64OfInt32 length.upper
            intervalMin := uint64OfInt32 interval.lower
            intervalMax := uint64OfInt32 interval.upper
            maxSplitMin := (maxSplit.map fun range => uint64OfInt32 range.lower).getD 0
            maxSplitMax := (maxSplit.map fun range => uint64OfInt32 range.upper).getD 0 }

end FragmentConfig

end V2RootCore.Conf
