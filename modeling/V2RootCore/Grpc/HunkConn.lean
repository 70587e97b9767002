import V2RootCore.Buf.MultiBuffer
import V2RootCore.Transition

/-!
# Hunks of a gRPC stream

The reading side of `HunkReaderWriter`, which has one hunk at a time and an index into it. A slice has a
capacity besides its content.
-/

namespace V2RootCore.Grpc

open Go Buf

structure Hunk where
  data : Bytes
  cap : Nat
  length_le : data.length ≤ cap

/-- The hunks are those that `Recv` will return before it fails. -/
structure HunkReaderWriter where
  hunks : List Hunk
  recvErr : Error := .eof
  done : Bool := false
  buf : Hunk := ⟨[], 0, Nat.le_refl 0⟩
  index : Nat := 0

namespace HunkReaderWriter

def forceFetch (h : HunkReaderWriter) : Except Error HunkReaderWriter :=
  match h.hunks with
  | hunk :: hunks => .ok { h with hunks, buf := hunk, index := 0 }
  | [] =>
      match h.recvErr with
      | .eof => .error .eof
      | err => .error (.base (ascii "failed to fetch hunk from gRPC tunnel") err)

/-- The start of both reads. -/
def fetch (h : HunkReaderWriter) : Except Error HunkReaderWriter :=
  if h.buf.data.length ≤ h.index then h.forceFetch else .ok h

/-- `Read` into a slice of some length: what is copied. -/
def read (h : HunkReaderWriter) (length : Nat) : Except Error Bytes × HunkReaderWriter :=
  if h.done then (.error .eof, h)
  else
    match h.fetch with
    | .error err => (.error err, h)
    | .ok h =>
        let copied := (h.buf.data.drop h.index).take length
        (.ok copied, { h with index := h.index + copied.length })

/-- The content of the buffer that `ReadMultiBuffer` returns. -/
def readMultiBuffer (h : HunkReaderWriter) : Except Error Bytes × HunkReaderWriter :=
  if h.done then (.error .eof, h)
  else
    match h.fetch with
    | .error err => (.error err, h)
    | .ok h =>
        if size ≤ h.buf.cap then (.ok h.buf.data, { h with index := h.buf.data.length })
        else h.read size

end HunkReaderWriter

inductive Call where
  | read (length : Nat)
  | readMultiBuffer
  /-- `Close` of a stream that cannot be closed for sending. -/
  | close

/-- A reader and everything it has returned. -/
structure Reading where
  conn : HunkReaderWriter
  returned : Bytes := []

namespace Reading

def add (r : Reading) : Except Error Bytes × HunkReaderWriter → Reading
  | (.ok data, conn) => { conn, returned := r.returned ++ data }
  | (.error _, conn) => { r with conn }

def step (r : Reading) : Call → Reading
  | .read length => r.add (r.conn.read length)
  | .readMultiBuffer => r.add r.conn.readMultiBuffer
  | .close => { r with conn := { r.conn with done := true } }

end Reading

end V2RootCore.Grpc
