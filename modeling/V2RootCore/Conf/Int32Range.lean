import V2RootCore.Conf.Fragment

/-!
# Both ends of an integer range

What is written for `Left` and `Right` of an `Int32Range`. A `null` is read as the empty string.
-/

namespace V2RootCore.Conf.Int32Range

open Go

/-- `strconv.Itoa`. -/
def itoa (n : Int) : Bytes := if n < 0 then 45 :: formatUint n.natAbs else formatUint n.natAbs

namespace Ends

def string (v : Ends) : Bytes :=
  if v.left = v.right then itoa v.left.toInt else itoa v.left.toInt ++ 45 :: itoa v.right.toInt

def marshalJSON (v : Ends) : Json := .string v.string

end Ends

end V2RootCore.Conf.Int32Range
