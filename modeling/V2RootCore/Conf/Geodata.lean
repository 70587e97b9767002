import V2RootCore.Loop
import V2RootCore.Go.Slices

/-!
# Looking up a list in a geodata file

`DecodeVarint` and `find` of `router.go`.
-/

namespace V2RootCore.Conf

open Go

/-- The loop of `DecodeVarint`, with the number of turns left. -/
def decodeLoop : Nat → Bytes → Nat → Nat → Nat → Nat × Nat
  | 0, _, _, _, _ => (0, 0)
  | _ + 1, [], _, _, _ => (0, 0)
  | turns + 1, b :: buf, shift, x, n =>
      let x := x ||| (b.toNat % 128 * 2 ^ shift) % 2 ^ 64
      if b.toNat < 128 then (x, n + 1) else decodeLoop turns buf (shift + 7) x (n + 1)

/-- The shifts below 64 that are multiples of 7 are ten. -/
def decodeVarint (buf : Bytes) : Nat × Nat := decodeLoop 10 buf 0 0 0

/-- The loop over the bytes of the code, from its `i`-th on. -/
def sameCode (data : Bytes) : Nat → Bytes → Except Error Bool
  | _, [] => .ok false
  | i, c :: code => do
      let d ← byteAt data (2 + i)
      if d = c then if code = [] then .ok true else sameCode data (i + 1) code else .ok false

def hasCode (data code : Bytes) (length : UInt8) : Except Error Bool :=
  if length.toNat = code.length then sameCode data 0 code else .ok false

/-- Returns the body of an element, or goes on behind it. -/
def elementEnd (dataL bodyL : Int) (data : Bytes) (found : Bool) : Except Error (Option Bytes ⊕ Bytes) :=
  if found then do
    let body ← slice data 0 bodyL
    .ok (.inl (some body))
  else if dataL = bodyL then .ok (.inl none)
  else do
    let data ← sliceFrom data bodyL
    .ok (.inr data)

/-- The body of the loop of `find` behind the header of an element. -/
def elementBody (code : Bytes) (dataL bodyL : Int) (data : Bytes) : Except Error (Option Bytes ⊕ Bytes) := do
  let length ← byteAt data 1
  let found ← hasCode data code length
  elementEnd dataL bodyL data found

/-- The body of the loop of `find`. -/
def element (code data : Bytes) : Except Error (Option Bytes ⊕ Bytes) :=
  if data.length < 2 then .ok (.inl none)
  else
    let (x, y) := decodeVarint (data.drop 1)
    if x = 0 ∧ y = 0 then .ok (.inl none)
    else if data.length - (1 + y : Int) < int64 x then .ok (.inl none)
    else do
      let body ← sliceFrom data (1 + y)
      elementBody code (data.length - (1 + y)) (int64 x) body

/-- Each turn that is not the last one makes the data shorter. -/
def find (data code : Bytes) : Except Error (Option Bytes) :=
  if code.length = 0 then .ok none else loop .panicked (element code) (data.length + 1) data

end V2RootCore.Conf
