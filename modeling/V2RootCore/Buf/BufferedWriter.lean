import V2RootCore.Buf.RawBuffer

/-!
# Buffered writers

`BufferedWriter` on top of a writer that does not fail: what that writer has received is part of the
state. Its own buffer comes from the pool and is only written to, so that it is its content.
-/

namespace V2RootCore.Buf

open Go

variable {ρ : Type}

structure BufferedWriter where
  /-- The underlying writer is an `io.Writer` as well. -/
  isBytesWriter : Bool
  buffer : Option Bytes := some []
  buffered : Bool := true
  flushNext : Bool := false
  received : Bytes := []
  deriving DecidableEq

namespace BufferedWriter

/-- What is in the buffer. -/
def held (w : BufferedWriter) : Bytes := w.buffer.getD []

def flushInternal (w : BufferedWriter) : BufferedWriter :=
  if w.held = [] then w else { w with buffer := none, received := w.received ++ w.held }

/-- Bytes that have room are added to the buffer. -/
def append (w : BufferedWriter) (data : Bytes) : BufferedWriter :=
  { w with buffer := some (w.held ++ data) }

/-- The loop of `Write`: the number of bytes, the error and the writer. -/
def writeLoop : Nat → BufferedWriter → Nat → Bytes → (Nat × Option Error) × BufferedWriter
  | 0, w, totalBytes, _ => ((totalBytes, some .panicked), w)
  | fuel + 1, w, totalBytes, b =>
      if b = [] then ((totalBytes, none), w)
      else
        let nBytes := min (size - w.held.length) b.length
        let w := w.append (b.take nBytes)
        if nBytes < b.length then ((totalBytes + nBytes, some errBufferFull), w)
        else
          let w := if ¬w.buffered ∨ w.held.length = size then w.flushInternal else w
          writeLoop fuel w (totalBytes + nBytes) (b.drop nBytes)

def write (w : BufferedWriter) (b : Bytes) : (Nat × Option Error) × BufferedWriter :=
  if b = [] then ((0, none), w)
  else if ¬w.buffered ∧ w.isBytesWriter then
    ((b.length, none), { w with received := w.received ++ b })
  else w.writeLoop (b.length + 1) 0 b

def writeByte (w : BufferedWriter) (c : UInt8) : Option Error × BufferedWriter :=
  match w.write [c] with
  | ((_, err), w) => (err, w)

/-- The loop of `WriteMultiBuffer`, which reads from the container of a multi-buffer. -/
def readLoop : Nat → BufferedWriter → MultiBuffer ρ → Except Error BufferedWriter
  | 0, _, _ => .error .panicked
  | fuel + 1, w, reader =>
      if reader.isEmpty then .ok w
      else
        let (reader, data) := reader.splitBytes (size - w.held.length)
        let w := w.append data
        let w := if w.held.length = size then w.flushInternal else w
        readLoop fuel w reader

def writeMultiBuffer (w : BufferedWriter) (b : MultiBuffer ρ) : Except Error BufferedWriter :=
  if b.isEmpty then .ok w
  else if ¬w.buffered then .ok { w with received := w.received ++ b.bytes }
  else do
    -- a full buffer is flushed before anything is read, each other turn reads something
    let w ← w.readLoop (b.len + 2) b
    if w.flushNext then .ok { w with buffered := false, flushNext := false }.flushInternal else .ok w

def flush (w : BufferedWriter) : BufferedWriter := w.flushInternal

def setBuffered (w : BufferedWriter) (f : Bool) : BufferedWriter :=
  if f then { w with buffered := f } else { w with buffered := f }.flushInternal

def setFlushNext (w : BufferedWriter) : BufferedWriter := { w with flushNext := true }

end BufferedWriter

inductive WriterCall (ρ : Type)
  | write (b : Bytes)
  | writeByte (c : UInt8)
  | writeMultiBuffer (b : MultiBuffer ρ)
  | setBuffered (f : Bool)
  | setFlushNext
  | flush
  deriving DecidableEq

def WriterCall.bytes : WriterCall ρ → Bytes
  | .write b => b
  | .writeByte c => [c]
  | .writeMultiBuffer b => b.bytes
  | _ => []

/-- A writer and the bytes it was given. -/
structure WriterUse where
  writer : BufferedWriter
  given : Bytes := []
  deriving DecidableEq

namespace WriterUse

def step (u : WriterUse) (call : WriterCall ρ) : WriterUse :=
  { given := u.given ++ call.bytes
    writer :=
      match call with
      | .write b => (u.writer.write b).2
      | .writeByte c => (u.writer.writeByte c).2
      | .writeMultiBuffer b =>
          match u.writer.writeMultiBuffer b with
          | .ok w => w
          | .error _ => u.writer
      | .setBuffered f => u.writer.setBuffered f
      | .setFlushNext => u.writer.setFlushNext
      | .flush => u.writer.flush }

/-- The call returns what it should: a write its whole length without an error, and after a flush all
bytes have been received. -/
def Returns (u : WriterUse) (call : WriterCall ρ) : Prop :=
  match call with
  | .write b => (u.writer.write b).1 = (b.length, none)
  | .writeByte c => (u.writer.writeByte c).1 = none
  | .writeMultiBuffer b => ∃ w, u.writer.writeMultiBuffer b = .ok w
  | .flush => (u.step call).writer.received = (u.step call).given
  | _ => True

end WriterUse

end V2RootCore.Buf
