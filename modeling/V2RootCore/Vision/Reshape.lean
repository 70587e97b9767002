import V2RootCore.Vision.Padding

/-!
# Reshaping before padding

`ReshapeMultiBuffer` cuts every buffer that leaves no room for the head of a block in two, and `XtlsPadding` is
then called for each buffer. Buffers may hold any number of bytes. What is chosen for a block (its command, the
kind of padding and the random number) is left open.
-/

namespace V2RootCore.Vision

open Go

def tlsApplicationDataStart : Bytes := [0x17, 0x03, 0x03]

/-- `bytes.LastIndex`. -/
def lastIndex (s sep : Bytes) : Int :=
  match (List.range (s.length + 1)).reverse.find? fun i => decide (sep <+: s.drop i) with
  | some i => i
  | none => -1

/-- Where a large buffer is cut. -/
def cutIndex (buffer1 : Bytes) : Nat :=
  let index := lastIndex buffer1 tlsApplicationDataStart
  if index < 21 ∨ index > Buf.size - 21 then Buf.size / 2 else index.toNat

def reshapeBuffer (buffer1 : Option Bytes) : List (Option Bytes) :=
  let content := buffer1.getD []
  if Buf.size - 21 ≤ content.length then
    [some (content.take (cutIndex content)), some (write [] (content.drop (cutIndex content)))]
  else [buffer1]

/-- `ReshapeMultiBuffer`. -/
def reshapeMultiBuffer (buffer : List (Option Bytes)) : List (Option Bytes) :=
  let needReshape := buffer.countP fun b => decide (Buf.size - 21 ≤ (b.getD []).length)
  if needReshape = 0 then buffer else buffer.flatMap reshapeBuffer

structure Choice where
  command : UInt8
  longPadding : Bool
  l : Nat

/-- `XtlsPadding` on one buffer after the other, from the buffer of this number on. -/
def padBuffers (choice : Nat → Choice) : Nat → Bytes → List (Option Bytes) → Except Error (List Bytes)
  | _, _, [] => .ok []
  | i, userUUID, b :: buffers => do
      let (block, userUUID) ←
        xtlsPadding b (choice i).command userUUID (choice i).longPadding (choice i).l
      let blocks ← padBuffers choice (i + 1) userUUID buffers
      .ok (block :: blocks)

end V2RootCore.Vision
