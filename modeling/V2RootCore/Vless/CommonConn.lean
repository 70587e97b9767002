import V2RootCore.Crypto.Aead
import Mathlib.Logic.Function.Basic
import V2RootCore.Transition

/-!
# Records of VLESS encryption

What is written is cut into records, each with a header like that of TLS.
-/

namespace V2RootCore.Vless

open Go Crypto

def encodeLength (l : Nat) : Bytes := [UInt8.ofNat (l / 256), UInt8.ofNat l]

/-- A slice of bytes as `%v` prints it. -/
def formatBytes (b : Bytes) : Bytes :=
  ascii "[" ++ [32].intercalate (b.map fun c => formatUint c.toNat) ++ ascii "]"

/-- `DecodeHeader` of five bytes. The length is returned with an error too. -/
def decodeHeader (h : Bytes) : Nat × Option Error :=
  let l :=
    if h.take 3 = [23, 3, 3] then 256 * (h.getD 3 0).toNat + (h.getD 4 0).toNat else 0
  (l, if l < 17 ∨ 17000 < l then some (.new (ascii "invalid header: " ++ formatBytes (h.take 5)))
    else none)

end V2RootCore.Vless
