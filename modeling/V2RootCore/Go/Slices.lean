import V2RootCore.Go.Io

/-!
# Indices, slices and integers of 32 bits

An index or a slice out of range is a panic. The capacity of a slice is its length here.
-/

namespace V2RootCore.Go

/-- The conversion to an `int32`. -/
@[irreducible]
def int32 (x : Int) : Int := x.bmod (2 ^ 32)

/-- The conversion to an `int64`, and the results of arithmetic in it. -/
def int64 (x : Int) : Int := x.bmod (2 ^ 64)

/-- The conversion to a `uint64`. -/
def uint64 (x : Int) : Int := x % 2 ^ 64

def byteAt (b : Bytes) (i : Int) : Except Error UInt8 :=
  if 0 ≤ i ∧ i < b.length then .ok (b.getD i.toNat 0) else .error .panicked

def setByteAt (b : Bytes) (i : Int) (x : UInt8) : Except Error Bytes :=
  if 0 ≤ i ∧ i < b.length then .ok (b.set i.toNat x) else .error .panicked

/-- `b[low:high]`. -/
def slice (b : Bytes) (low high : Int) : Except Error Bytes :=
  if 0 ≤ low ∧ low ≤ high ∧ high ≤ b.length then .ok ((b.take high.toNat).drop low.toNat)
  else .error .panicked

/-- `b[low:]`. -/
def sliceFrom (b : Bytes) (low : Int) : Except Error Bytes := slice b low b.length

/-- A slice of `b` that starts at `low`, after `copy` to it. -/
def copyTo (b : Bytes) (low : Nat) (data : Bytes) : Bytes :=
  b.take low ++ data ++ b.drop (low + data.length)

/-- `binary.BigEndian.Uint32`. -/
def uint32 : Bytes → UInt32
  | b₀ :: b₁ :: b₂ :: b₃ :: _ =>
      UInt32.ofNat (256 * (256 * (256 * b₀.toNat + b₁.toNat) + b₂.toNat) + b₃.toNat)
  | _ => 0

/-- `binary.BigEndian.PutUint32`. -/
def putUint32 (n : UInt32) : Bytes :=
  [UInt8.ofNat (n.toNat / 2 ^ 24), UInt8.ofNat (n.toNat / 2 ^ 16), UInt8.ofNat (n.toNat / 256),
    UInt8.ofNat n.toNat]

end V2RootCore.Go
