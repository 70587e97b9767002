import V2RootCore.Net.Address
import V2RootCore.Go.Slices

/-!
# UUID texts

`uuid.go`, with the functions of `encoding/hex` it uses. The bytes that `sha1` returns are a parameter. The number
of the byte in the text of an error of `encoding/hex` is left out.
-/

namespace V2RootCore.Uuid

open Go

/-- A digit of `hex.EncodeToString`. -/
def hextable (n : Nat) : UInt8 := UInt8.ofNat (if n < 10 then 48 + n else 87 + n)

def encodeToString (src : Bytes) : Bytes :=
  src.flatMap fun v => [hextable (v.toNat / 16), hextable (v.toNat % 16)]

/-- `hex.Decode`. -/
def decode : Bytes → Except Error Bytes
  | [] => .ok []
  | [_] => .error (.new (ascii "encoding/hex: odd length hex string"))
  | p :: q :: src =>
      match Net.hexDigit p, Net.hexDigit q with
      | some a, some b => do
          let dst ← decode src
          .ok (UInt8.ofNat (16 * a + b) :: dst)
      | _, _ => .error (.new (ascii "encoding/hex: invalid byte"))

def byteGroups : List Nat := [8, 4, 4, 4, 12]

/-- The loop of `String`, with the bytes that are left. -/
def stringGroups : List Nat → Bytes → Bytes
  | [], _ => []
  | group :: groups, bytes =>
      ascii "-" ++ encodeToString (bytes.take (group / 2)) ++ stringGroups groups (bytes.drop (group / 2))

def string (u : List.Vector UInt8 16) : Bytes :=
  encodeToString (u.toList.take 4) ++ stringGroups byteGroups.tail (u.toList.drop 4)

def skipDash (text : Bytes) : Except Error Bytes := do
  let first ← byteAt text 0
  if first = 45 then sliceFrom text 1 else .ok text

/-- The loop of `ParseString`, which returns the bytes of the groups. -/
def parseGroups : List Nat → Bytes → Except Error Bytes
  | [], _ => .ok []
  | byteGroup :: groups, text => do
      let text ← skipDash text
      let digits ← slice text 0 byteGroup
      let b ← decode digits
      let text ← sliceFrom text byteGroup
      let rest ← parseGroups groups text
      .ok (b ++ rest)

/-- The version and the variant of a hashed id. -/
def hashed (u : Bytes) : Bytes :=
  (u.set 6 ((u.getD 6 0 &&& 0x0f) ||| 0x50)).set 8 ((u.getD 8 0 &&& 0x3f) ||| 0x80)

def parseString (sha1 : Bytes → List.Vector UInt8 20) (str : Bytes) : Except Error Bytes :=
  if str.length < 32 ∨ str.length > 36 then
    if str.length = 0 ∨ str.length > 30 then .error (.new (ascii "invalid UUID: " ++ str))
    else .ok (hashed ((sha1 (List.replicate 16 0 ++ str)).toList.take 16))
  else parseGroups byteGroups str

end V2RootCore.Uuid
