import V2RootCore.Go.Strings
import Mathlib.Data.Vector.Basic

/-!
# Errors, byte order and full reads

What `io`, `encoding/binary` and the error package of the project give to readers and writers of
frames.
-/

namespace V2RootCore.Go

/-- Error values. A panic that nothing recovers from is one more way to end. -/
inductive Error where
  | eof
  | unexpectedEOF
  | closedPipe
  | panicked
  | new (text : Bytes)
  | base (text : Bytes) (inner : Error)
  deriving DecidableEq, Repr

/-- `binary.BigEndian.PutUint16`. -/
def putUint16 (n : UInt16) : Bytes := [UInt8.ofNat (n.toNat / 256), UInt8.ofNat n.toNat]

/-- `binary.BigEndian.Uint16`. -/
def uint16 : Bytes → UInt16
  | high :: low :: _ => UInt16.ofNat (256 * high.toNat + low.toNat)
  | _ => 0

/-- `io.ReadFull` on a reader that holds all of its bytes, which it reads in one go. -/
def readFull (n : Nat) (input : Bytes) : Except Error (List.Vector UInt8 n × Bytes) :=
  if h : n ≤ input.length then .ok (⟨input.take n, by simp [h]⟩, input.drop n)
  else .error (if input = [] then .eof else .unexpectedEOF)

end V2RootCore.Go
