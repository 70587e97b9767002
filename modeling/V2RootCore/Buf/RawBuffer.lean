import V2RootCore.Go.Slices
import V2RootCore.Buf.MultiBuffer

/-!
# Buffers with their indices

The fields of `Buffer` as they are, for callers that may leave the range of its array. Its index `end` is
called `stop` here. Indices are of 32 bits. Where a slice of the array is returned to be written to, it is
given by its bounds.
-/

namespace V2RootCore.Buf

open Go

structure RawBuffer where
  v : Bytes
  start : Int := 0
  stop : Int := 0
  deriving DecidableEq

/-- `ErrBufferFull` of the buffers. -/
def errBufferFull : Error := .new (ascii "buffer is full")

/-- What reads from a buffer. -/
abbrev Reading := StateT RawBuffer (Except Error)

namespace RawBuffer

/-- `New`. -/
def new : RawBuffer := { v := List.replicate size 0 }

/-- `FromBytes`. -/
def fromBytes (b : Bytes) : RawBuffer := { v := b, stop := int32 b.length }

def len (b : RawBuffer) : Int := int32 (b.stop - b.start)

def cap (b : RawBuffer) : Int := int32 b.v.length

def isEmpty (b : RawBuffer) : Bool := b.len = 0

/-- The extended part, which is cleared, and the buffer. -/
def extend (b : RawBuffer) (n : Int) : Except Error (Bytes × RawBuffer) :=
  let stop := int32 (b.stop + n)
  if int32 b.v.length < stop then .error .panicked
  else do
    let ext ← slice b.v b.stop stop
    let ext := List.replicate ext.length 0
    .ok (ext, { b with v := copyTo b.v b.stop.toNat ext, stop })

/-- `Bytes`. -/
def bytes (b : RawBuffer) : Except Error Bytes := slice b.v b.start b.stop

/-- `BytesTo`. -/
def bytesTo (b : RawBuffer) (high : Int) : Except Error Bytes :=
  let high := if high < 0 then int32 (high + b.len) else high
  slice b.v b.start (int32 (b.start + max high 0))

def check (b : RawBuffer) : RawBuffer :=
  let b := if b.start < 0 then { b with start := 0 } else b
  let b := if b.stop < 0 then { b with stop := 0 } else b
  if b.stop < b.start then { b with start := b.stop } else b

def advance (b : RawBuffer) (low : Int) : RawBuffer :=
  let low := if low < 0 then int32 (low + b.len) else low
  { b with start := int32 (b.start + low) }.check

/-- `Resize`. What is new at the end is cleared. -/
def resize (b : RawBuffer) (low high : Int) : Except Error RawBuffer :=
  let low := if low < 0 then int32 (low + b.len) else low
  let high := if high < 0 then int32 (high + b.len) else high
  if high < low then .error .panicked
  else
    let cut := { b with start := int32 (b.start + low), stop := int32 (b.start + high) }.check
    if b.stop < cut.stop then do
      let more ← slice b.v b.stop cut.stop
      .ok { cut with v := copyTo b.v b.stop.toNat (List.replicate more.length 0) }
    else .ok cut

/-- The bounds of `BytesRange`. -/
def bytesRange (b : RawBuffer) (low high : Int) : Except Error (Int × Int) :=
  let low := if low < 0 then int32 (low + b.len) else low
  let high := if high < 0 then int32 (high + b.len) else high
  do
    let _ ← slice b.v (int32 (b.start + low)) (int32 (b.start + high))
    .ok (int32 (b.start + low), int32 (b.start + high))

def readByte : Reading UInt8 := fun b =>
  if b.start = b.stop then .error .eof
  else do
    let nb ← byteAt b.v b.start
    .ok (nb, { b with start := int32 (b.start + 1) })

def readBytes (length : Int) : Reading Bytes := fun b =>
  if int32 (b.stop - b.start) < length then .error .eof
  else do
    let nb ← slice b.v b.start (int32 (b.start + length))
    .ok (nb, { b with start := int32 (b.start + length) })

/-- `Read` into a slice of some length: what is copied. -/
def read (n : Nat) : Reading Bytes := fun b =>
  if b.len = 0 then .error .eof
  else do
    let content ← slice b.v b.start b.stop
    let data := content.take n
    .ok (data,
      if int32 data.length = b.len then { b with start := 0, stop := 0 }
      else { b with start := int32 (b.start + data.length) })

/-- `Write`: what has room is copied, and it is an error if that is not all. -/
def write (b : RawBuffer) (data : Bytes) : Except Error (Option Error × RawBuffer) := do
  let room ← sliceFrom b.v b.stop
  let copied := data.take room.length
  .ok (if copied.length < data.length then some errBufferFull else none,
    { b with v := copyTo b.v b.stop.toNat copied, stop := int32 (b.stop + copied.length) })

/-- `Write` where an error is returned. -/
def writeAll (b : RawBuffer) (data : Bytes) : Except Error RawBuffer := do
  match ← b.write data with
  | (none, b) => .ok b
  | (some err, _) => .error err

/-- `Write` under `common.Must2`. -/
def mustWrite (b : RawBuffer) (data : Bytes) : Except Error RawBuffer := do
  match ← b.write data with
  | (none, b) => .ok b
  | (some _, _) => .error .panicked

end RawBuffer

/-- Another error in place of that of a read. -/
def Reading.orFail {α : Type} (read : Reading α) (err : Error) : Reading α := fun b =>
  match read b with
  | .ok result => .ok result
  | .error .panicked => .error .panicked
  | .error _ => .error err

end V2RootCore.Buf
