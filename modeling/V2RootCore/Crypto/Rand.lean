import V2RootCore.Go.Slices

/-!
# Random numbers between two bounds

`RandBetween` of `crypto.go`. A random number stands for the draw it is reduced to.
-/

namespace V2RootCore.Crypto

open Go

/-- `RandBetween`. The upper bound is not drawn. -/
def randBetween (low high : Int) (number : Nat) : Except Error Int :=
  if low = high then .ok low
  else
    let (low, high) := if low > high then (high, low) else (low, high)
    let width := int64 (high - low)
    if width ≤ 0 then .error .panicked else .ok (int64 (low + number % width))

end V2RootCore.Crypto
