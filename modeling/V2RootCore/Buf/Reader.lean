import V2RootCore.Buf.MultiBuffer

/-!
# Readers of a fragmented stream

`buf.BufferedReader` over an underlying reader that returns the multi-buffers of a list one by one and
then `io.EOF`, and `buf.Copy`. The loops of the source that end when the stream does have fuel here; to run
out of it counts as a panic.
-/

namespace V2RootCore.Buf

open Go

variable {ρ : Type}

structure BufferedReader (ρ : Type) where
  reader : List (MultiBuffer ρ)
  buffer : MultiBuffer ρ := []

namespace BufferedReader

def setBuffer (r : BufferedReader ρ) (mb : MultiBuffer ρ) : BufferedReader ρ :=
  { r with buffer := if mb.isEmpty then [] else mb }

/-- `Read` into a slice of `n` bytes. -/
def read (r : BufferedReader ρ) (n : Nat) : Except Error Bytes × BufferedReader ρ :=
  if r.buffer.isEmpty then
    match r.reader with
    | [] => (.error .eof, r)
    | mb :: reader =>
        let (left, copied) := mb.splitBytes n
        (.ok copied, { r with reader }.setBuffer left)
  else
    let (left, copied) := r.buffer.splitBytes n
    (.ok copied, r.setBuffer left)

/-- The loop of `io.ReadFull`, with `n` bytes to go. -/
def readLoop : Nat → BufferedReader ρ → Nat → Bytes → Except Error Bytes × BufferedReader ρ
  | 0, r, _, _ => (.error .panicked, r)
  | fuel + 1, r, n, buf =>
      if n = 0 then (.ok buf, r)
      else
        match r.read n with
        | (.error err, r) =>
            (.error (if buf ≠ [] ∧ err = .eof then .unexpectedEOF else err), r)
        | (.ok copied, r) => readLoop fuel r (n - copied.length) (buf ++ copied)

/-- `io.ReadFull`. Every read either copies a byte or takes a multi-buffer from the stream. -/
def readFull (r : BufferedReader ρ) (n : Nat) : Except Error Bytes × BufferedReader ρ :=
  readLoop (n + r.reader.length + 1) r n []

def splitBuffer (r : BufferedReader ρ) (n : Nat) : Except Error (MultiBuffer ρ) × BufferedReader ρ :=
  match r.buffer.splitSize n with
  | .error err => (.error err, r)
  | .ok (left, mb) => (.ok mb, r.setBuffer left)

def readAtMost (r : BufferedReader ρ) (n : Nat) : Except Error (MultiBuffer ρ) × BufferedReader ρ :=
  if r.buffer.isEmpty then
    match r.reader with
    | [] => (.error .eof, r)
    | mb :: reader => splitBuffer { reader, buffer := mb } n
  else r.splitBuffer n

/-- Counts the multi-buffers, buffers and bytes still to come. -/
def weight (r : BufferedReader ρ) : Nat :=
  (r.reader.map fun mb => 1 + mb.length + mb.len).sum + r.buffer.length + r.buffer.len

end BufferedReader

/-- What ends `copyInternal`. -/
inductive CopyError where
  | readError (inner : Error)
  | writeError (inner : Error)
  deriving DecidableEq

section Copy

variable {σ τ : Type} (read : σ → Except Error (MultiBuffer ρ) × σ)
  (write : τ → MultiBuffer ρ → Except Error τ)

def copyInternal : Nat → σ → τ → CopyError × σ × τ
  | 0, reader, writer => (.readError .panicked, reader, writer)
  | fuel + 1, reader, writer =>
      match read reader with
      | (.error err, reader) => (.readError err, reader, writer)
      | (.ok mb, reader) =>
          if mb.isEmpty then copyInternal fuel reader writer
          else
            match write writer mb with
            | .error err => (.writeError err, reader, writer)
            | .ok writer => copyInternal fuel reader writer

end Copy

end V2RootCore.Buf
