import V2RootCore.Buf.RawBuffer

/-!
# Multi-buffers of buffers with their indices

The operations on a `MultiBuffer` for buffers of any size, of which a part may have been read. Two buffers
do not share an array.
-/

namespace V2RootCore.Buf

open Go

namespace RawBuffer

/-- `Available`. -/
def available (b : RawBuffer) : Int := int32 (int32 b.v.length - b.stop)

/-- `IsFull`. -/
def isFull (b : RawBuffer) : Bool := b.stop = int32 b.v.length

/-- The number of bytes that are copied behind the content, and the buffer. -/
def append (b : RawBuffer) (data : Bytes) : Except Error (Nat × RawBuffer) := do
  let room ← sliceFrom b.v b.stop
  let copied := data.take room.length
  .ok (copied.length,
    { b with v := copyTo b.v b.stop.toNat copied, stop := int32 (b.stop + copied.length) })

/-- `ReadFrom` another buffer, under `common.Must2`. -/
def mustReadFrom (b reader : RawBuffer) : Except Error RawBuffer := do
  let room ← sliceFrom b.v b.stop
  match reader.read room.length with
  | .error _ => .error .panicked
  | .ok (data, _) => do
      let (_, b) ← b.append data
      .ok b

end RawBuffer

abbrev RawMulti := List RawBuffer

namespace RawMulti

open RawBuffer

/-- The loop of `MergeBytes`. -/
def fillNew : Nat → RawMulti → Bytes → Except Error RawMulti
  | 0, _, _ => .error .panicked
  | fuel + 1, dest, src =>
      if src = [] then .ok dest
      else do
        let (nBytes, b) ← RawBuffer.new.append src
        fillNew fuel (dest ++ [b]) (src.drop nBytes)

def mergeBytes (dest : RawMulti) (src : Bytes) : Except Error RawMulti :=
  match dest.getLast? with
  | some last =>
      if last.isFull then fillNew (src.length + 1) dest src
      else do
        let (nBytes, last) ← last.append src
        fillNew (src.length + 1) (dest.dropLast ++ [last]) (src.drop nBytes)
  | none => fillNew (src.length + 1) dest src

/-- `SplitBytes`: what is left and what was copied into a slice of `n` bytes. -/
def splitBytes : RawMulti → Nat → Except Error (RawMulti × Bytes)
  | [], _ => .ok ([], [])
  | b :: mb, n =>
      match b.read n with
      | .error .panicked => .error .panicked
      | .error _ => splitBytes mb n
      | .ok (data, b) =>
          if b.isEmpty then do
            let (left, more) ← splitBytes mb (n - data.length)
            .ok (left, data ++ more)
          else .ok (b :: mb, data)

/-- The loop of `Compact`. -/
def compactLoop : RawBuffer → RawMulti → RawMulti → Except Error RawMulti
  | last, mb2, [] => .ok (mb2 ++ [last])
  | last, mb2, curr :: mb =>
      if last.available < curr.len then compactLoop curr (mb2 ++ [last]) mb
      else do
        let last ← last.mustReadFrom curr
        compactLoop last mb2 mb

def compact : RawMulti → Except Error RawMulti
  | [] => .ok []
  | last :: mb => compactLoop last [] mb

def splitFirst : RawMulti → RawMulti × Option RawBuffer
  | [] => ([], none)
  | b :: mb => (mb, some b)

/-- The loop of `SplitSize`: what is left and the buffers that fit whole. -/
def splitWhole (size totalBytes : Int) : RawMulti → RawMulti × RawMulti
  | [] => ([], [])
  | b :: mb =>
      if size < int32 (totalBytes + b.len) then (b :: mb, [])
      else
        let (left, r) := splitWhole size (int32 (totalBytes + b.len)) mb
        (left, b :: r)

def splitSize (mb : RawMulti) (size : Int) : Except Error (RawMulti × RawMulti) :=
  match mb with
  | [] => .ok ([], [])
  | b :: mb =>
      if size < b.len then do
        let (ext, part) ← RawBuffer.new.extend size
        let data ← b.bytesTo size
        let part := { part with v := copyTo part.v 0 (data.take ext.length) }
        .ok (b.advance size :: mb, [part])
      else .ok (splitWhole size 0 (b :: mb))

end RawMulti

end V2RootCore.Buf
