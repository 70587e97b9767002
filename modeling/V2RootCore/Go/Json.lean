import Mathlib.Data.List.Sort
import V2RootCore.Go.Map
import V2RootCore.Go.Utf8

/-!
# JSON values

The values `encoding/json` decodes into an `interface{}`, and what `%v` prints for them. An object is
the list of its keys and values; `Json.get` reads it as the map it stands for. What `json.Unmarshal` makes
of a text is a parameter of the functions that call it.
-/

namespace V2RootCore.Go

/-- A `float64` by its shortest decimal form: `0.d₁d₂… · 10 ^ point`. Zero has no digits. -/
structure Number where
  negative : Bool := false
  digits : List (Fin 10)
  point : Int
  deriving DecidableEq, Repr

inductive Json where
  | null
  | bool (value : Bool)
  | number (value : Number)
  | string (text : Bytes)
  | array (items : List Json)
  | object (fields : List (Bytes × Json))

namespace Number

def digitByte (digit : Fin 10) : UInt8 := 48 + digit.val.toUInt8

/-- The digits with a decimal point among them, as `%f` prints them. -/
def formatFixed (n : Number) : Bytes :=
  let text := n.digits.map digitByte
  let whole := n.point.toNat
  let integral := (text ++ List.replicate (whole - text.length) 48).take whole
  let fraction := List.replicate (-n.point).toNat 48 ++ text.drop whole
  (if integral = [] then [48] else integral) ++
    if n.digits.length ≤ whole ∨ n.digits = [] then [] else 46 :: fraction

/-- One digit before the decimal point, as `%e` prints it. The exponent has at least two digits. -/
def formatExponent (n : Number) : Bytes :=
  let text := n.digits.map digitByte
  let exponent := n.point - 1
  let size := formatUint exponent.natAbs
  text.take 1 ++ (if text.length ≤ 1 then [] else 46 :: text.drop 1) ++
    101 :: (if exponent < 0 then 45 else 43) ::
    (if size.length < 2 then 48 :: size else size)

/-- What `%v` prints for a `float64`: `%e` for exponents below -4 and from 6 on, `%f` otherwise. -/
def sprint (n : Number) : Bytes :=
  (if n.negative then [45] else []) ++
    if n.digits ≠ [] ∧ (n.point - 1 < -4 ∨ 6 ≤ n.point - 1) then n.formatExponent
    else n.formatFixed

end Number

namespace Json

mutual

/-- What `%v` prints for a decoded value. A map is printed in the order of its keys. -/
def sprint : Json → Bytes
  | null => ascii "<nil>"
  | bool value => if value then ascii "true" else ascii "false"
  | number value => value.sprint
  | string text => text
  | array items => ascii "[" ++ [32].intercalate (sprintItems items) ++ ascii "]"
  | object fields =>
      ascii "map[" ++ [32].intercalate (((sprintFields fields).insertionSort fun a b => a.1 ≤ b.1).map
        fun (key, value) => key ++ 58 :: value) ++ ascii "]"

def sprintItems : List Json → List Bytes
  | [] => []
  | item :: rest => sprint item :: sprintItems rest

def sprintFields : List (Bytes × Json) → List (Bytes × Bytes)
  | [] => []
  | field :: rest => sprintField field :: sprintFields rest

def sprintField : Bytes × Json → Bytes × Bytes
  | (key, value) => (key, sprint value)

end

/-- The value of a key of an object. -/
def get (data : Map Json) (key : String) : Option Json := data.lookup (ascii key)

/-- A type assertion `value.(string)`. -/
def asString : Option Json → Option Bytes
  | some (string text) => some text
  | _ => none

end Json

end V2RootCore.Go
