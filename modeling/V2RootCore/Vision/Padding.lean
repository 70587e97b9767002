import V2RootCore.Buf.MultiBuffer

/-!
# Padding of Vision

`XtlsPadding` wraps the content of a buffer into a block with a header of five bytes, and
`XtlsUnpadding` takes blocks apart again, however they are cut into buffers. What it does not use of the
traffic state, the state of the writers, is left out. A buffer is its content here; a new one has room for
`Buf.size` bytes.
-/

namespace V2RootCore.Vision

open Go

def commandPaddingContinue : UInt8 := 0

def commandPaddingEnd : UInt8 := 1

def commandPaddingDirect : UInt8 := 2

/-- `Write` to a new buffer, which takes what it has room for. -/
def write (newbuffer data : Bytes) : Bytes := newbuffer ++ data.take (Buf.size - newbuffer.length)

/-- `Extend` of a new buffer. -/
def extend (newbuffer : Bytes) (n : Int) : Except Error Bytes :=
  if Buf.size < newbuffer.length + n ∨ n < 0 then .error .panicked
  else .ok (newbuffer ++ List.replicate n.toNat 0)

/-- The conversion of an `int32` to a byte. -/
def byte (x : Int) : UInt8 := UInt8.ofNat (x % 256).toNat

/-- The number of padding bytes, for a number from the random source. -/
def paddingLen (contentLen : Int) (longPadding : Bool) (l : Nat) : Int :=
  let paddingLen : Int :=
    if contentLen < 900 ∧ longPadding then (l % 500 : Nat) + 900 - contentLen else (l % 256 : Nat)
  min paddingLen (Buf.size - 21 - contentLen)

/-- `XtlsPadding`: the new buffer, and what is left of the user id, which is written once. -/
def xtlsPadding (b : Option Bytes) (command : UInt8) (userUUID : Bytes) (longPadding : Bool) (l : Nat) :
    Except Error (Bytes × Bytes) :=
  let contentLen : Int := (b.getD []).length
  let paddingLen := paddingLen contentLen longPadding l
  let header := [command, byte (contentLen / 256), byte contentLen, byte (paddingLen / 256),
    byte paddingLen]
  let newbuffer := write (write (write [] userUUID) header) (b.getD [])
  (extend newbuffer paddingLen).map fun newbuffer => (newbuffer, [])

/-- The state of the reader of a link. -/
structure LinkState where
  withinPaddingBuffers : Bool := true
  directCopy : Bool := false
  remainingCommand : Int := -1
  remainingContent : Int := -1
  remainingPadding : Int := -1
  currentCommand : Nat := 0
  deriving DecidableEq

namespace LinkState

def initial (s : LinkState) : Bool :=
  s.remainingCommand = -1 ∧ s.remainingContent = -1 ∧ s.remainingPadding = -1

def blockDone (s : LinkState) : Bool :=
  s.remainingCommand ≤ 0 ∧ s.remainingContent ≤ 0 ∧ s.remainingPadding ≤ 0

/-- A byte of the header. -/
def headerByte (s : LinkState) (data : UInt8) : LinkState :=
  let s :=
    match s.remainingCommand with
    | 5 => { s with currentCommand := data.toNat }
    | 4 => { s with remainingContent := 256 * data.toNat }
    | 3 => { s with remainingContent := (s.remainingContent.toNat ||| data.toNat : Nat) }
    | 2 => { s with remainingPadding := 256 * data.toNat }
    | 1 => { s with remainingPadding := (s.remainingPadding.toNat ||| data.toNat : Nat) }
    | _ => s
  { s with remainingCommand := s.remainingCommand - 1 }

/-- What is done with a buffer that is not empty until the state is looked at again: the rest of the
buffer, the state and the new buffer. In the last case there is padding to come. -/
def round (s : LinkState) (data : UInt8) (b newbuffer : Bytes) : Bytes × LinkState × Bytes :=
  if 0 < s.remainingCommand then (b, s.headerByte data, newbuffer)
  else if 0 < s.remainingContent then
    let len := min s.remainingContent.toNat (b.length + 1)
    ((data :: b).drop len, { s with remainingContent := s.remainingContent - len },
      write newbuffer ((data :: b).take len))
  else
    let len := min s.remainingPadding.toNat (b.length + 1)
    ((data :: b).drop len, { s with remainingPadding := s.remainingPadding - len }, newbuffer)

/-- The loop of `XtlsUnpadding`. -/
def unpad : Nat → LinkState → Bytes → Bytes → Bytes × LinkState
  | 0, s, _, newbuffer => (newbuffer, s)
  | _ + 1, s, [], newbuffer => (newbuffer, s)
  | fuel + 1, s, data :: b, newbuffer =>
      let (b, s, newbuffer) := s.round data b newbuffer
      if s.blockDone then
        if s.currentCommand = 0 then unpad fuel { s with remainingCommand := 5 } b newbuffer
        else
          (write newbuffer b,
            { s with remainingCommand := -1, remainingContent := -1, remainingPadding := -1 })
      else unpad fuel s b newbuffer

end LinkState

/-- `XtlsUnpadding` on the state of its link. -/
def xtlsUnpadding (userUUID : Bytes) (s : LinkState) (b : Bytes) : Bytes × LinkState :=
  if s.initial then
    if 21 ≤ b.length ∧ userUUID = b.take 16 then
      { s with remainingCommand := 5 }.unpad b.length (b.drop 16) []
    else (b, s)
  else s.unpad b.length b []

/-- `XtlsUnpadding` on one buffer after the other. -/
def unpadBuffers (userUUID : Bytes) : LinkState → List Bytes → List Bytes × LinkState
  | s, [] => ([], s)
  | s, b :: buffers =>
      let (newbuffer, s) := xtlsUnpadding userUUID s b
      let (newbuffers, s) := unpadBuffers userUUID s buffers
      (newbuffer :: newbuffers, s)

/-- What a writer wraps into a block. -/
structure Content where
  b : Option Bytes
  longPadding : Bool
  l : Nat

/-- The blocks that a writer makes one after the other, the last one with a command of its own. -/
def padContents (last : UInt8) : Bytes → List Content → Except Error Bytes
  | _, [] => .ok []
  | userUUID, [c] => (xtlsPadding c.b last userUUID c.longPadding c.l).map Prod.fst
  | userUUID, c :: c' :: contents => do
      let (block, userUUID) ← xtlsPadding c.b commandPaddingContinue userUUID c.longPadding c.l
      let blocks ← padContents last userUUID (c' :: contents)
      .ok (block ++ blocks)

end V2RootCore.Vision
