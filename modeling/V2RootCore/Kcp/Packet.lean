import V2RootCore.Kcp.Segment
import V2RootCore.Go.Slices

/-!
# mKCP packets

Segments on the wire (`segment.go`), `SimpleAuthenticator` with the portable loops of `xor.go`, and the packet
reader and writer of `io.go`. A packet header stands by the bytes it writes. Any other AEAD is an ideal one.
-/

namespace V2RootCore.Kcp

open Go

section Serialize

def DataSegment.serialize (s : DataSegment Bytes) : Bytes :=
  putUint16 s.conv ++ [CommandData, s.option] ++ putUint32 s.timestamp ++ putUint32 s.number ++
    putUint32 s.sendingNext ++ putUint16 (UInt16.ofNat s.payload.length) ++ s.payload

def AckSegment.serialize (s : AckSegment) : Bytes :=
  putUint16 s.conv ++ [CommandACK, s.option] ++ putUint32 s.receivingWindow ++ putUint32 s.receivingNext ++
    putUint32 s.timestamp ++ [UInt8.ofNat s.numberList.length] ++
    s.numberList.flatMap putUint32

def CmdOnlySegment.serialize (s : CmdOnlySegment) : Bytes :=
  putUint16 s.conv ++ [s.cmd, s.option] ++ putUint32 s.sendingNext ++ putUint32 s.receivingNext ++
    putUint32 s.peerRTO

def Segment.serialize : Segment Bytes → Bytes
  | .data s => s.serialize
  | .ack s => s.serialize
  | .cmdOnly s => s.serialize

end Serialize

section Parse

/-- `binary.BigEndian.Uint16(buf)` and `buf[2:]`. -/
def takeUint16 (buf : Bytes) : Except Error (UInt16 × Bytes) :=
  if buf.length < 2 then .error .panicked else .ok (uint16 buf, buf.drop 2)

/-- `binary.BigEndian.Uint32(buf)` and `buf[4:]`. -/
def takeUint32 (buf : Bytes) : Except Error (UInt32 × Bytes) :=
  if buf.length < 4 then .error .panicked else .ok (uint32 buf, buf.drop 4)

/-- `buf[0]` and `buf[1:]`. -/
def takeByte : Bytes → Except Error (UInt8 × Bytes)
  | [] => .error .panicked
  | byte :: rest => .ok (byte, rest)

/-- A parser gives the segment and what stands behind it, or nothing if it is not valid. The payload goes to
a new buffer, which takes no more than 8192 bytes. -/
def DataSegment.parse (conv : UInt16) (opt : SegmentOption) (buf : Bytes) :
    Except Error (Option (DataSegment Bytes × Bytes)) :=
  if buf.length < 15 then .ok none
  else do
    let (timestamp, buf) ← takeUint32 buf
    let (number, buf) ← takeUint32 buf
    let (sendingNext, buf) ← takeUint32 buf
    let (dataLen, buf) ← takeUint16 buf
    if buf.length < dataLen.toNat then .ok none
    else
      let payload := (buf.take dataLen.toNat).take 8192
      .ok (some ({ conv, option := opt, timestamp, number, sendingNext, payload }, buf.drop dataLen.toNat))

def takeNumbers : Nat → Bytes → Except Error (List UInt32 × Bytes)
  | 0, buf => .ok ([], buf)
  | count + 1, buf => do
      let (number, buf) ← takeUint32 buf
      let (numbers, buf) ← takeNumbers count buf
      .ok (number :: numbers, buf)

def AckSegment.parse (conv : UInt16) (opt : SegmentOption) (buf : Bytes) :
    Except Error (Option (AckSegment × Bytes)) :=
  if buf.length < 13 then .ok none
  else do
    let (receivingWindow, buf) ← takeUint32 buf
    let (receivingNext, buf) ← takeUint32 buf
    let (timestamp, buf) ← takeUint32 buf
    let (count, buf) ← takeByte buf
    if buf.length < count.toNat * 4 then .ok none
    else
      let (numberList, buf) ← takeNumbers count.toNat buf
      .ok (some ({ conv, option := opt, receivingWindow, receivingNext, timestamp, numberList }, buf))

def CmdOnlySegment.parse (conv : UInt16) (cmd : Command) (opt : SegmentOption) (buf : Bytes) :
    Except Error (Option (CmdOnlySegment × Bytes)) :=
  if buf.length < 12 then .ok none
  else do
    let (sendingNext, buf) ← takeUint32 buf
    let (receivingNext, buf) ← takeUint32 buf
    let (peerRTO, buf) ← takeUint32 buf
    .ok (some ({ conv, cmd, option := opt, sendingNext, receivingNext, peerRTO }, buf))

def parsedAs {α : Type} (kind : α → Segment Bytes) (parsed : Except Error (Option (α × Bytes))) :
    Except Error (Option (Segment Bytes × Bytes)) :=
  parsed.map (Option.map (Prod.map kind id))

def readSegment (buf : Bytes) : Except Error (Option (Segment Bytes × Bytes)) :=
  if buf.length < 4 then .ok none
  else do
    let (conv, buf) ← takeUint16 buf
    let (cmd, buf) ← takeByte buf
    let (opt, buf) ← takeByte buf
    if cmd = CommandData then parsedAs .data (DataSegment.parse conv opt buf)
    else if cmd = CommandACK then parsedAs .ack (AckSegment.parse conv opt buf)
    else parsedAs .cmdOnly (CmdOnlySegment.parse conv cmd opt buf)

/-- The loop of `Read`. One that runs out of fuel is told apart by the panic. -/
def readSegments : Nat → Bytes → Except Error (List (Segment Bytes))
  | fuel, b =>
      if b = [] then .ok []
      else
        match fuel with
        | 0 => .error .panicked
        | fuel + 1 => do
            match ← readSegment b with
            | none => .ok []
            | some (seg, rest) => do
                let segs ← readSegments fuel rest
                .ok (seg :: segs)

end Parse

namespace SimpleAuthenticator

def overhead : Nat := 6

/-- The hash of `fnv.New32a`. -/
def fnv32a (data : Bytes) : UInt32 :=
  data.foldl (fun hash byte => (hash ^^^ byte.toUInt32) * 16777619) 2166136261

/-- One step of both loops, `x[i] ^= x[i-4]`. -/
def xorAt (x : Bytes) (i : Nat) : Bytes := x.set i (x.getD i 0 ^^^ x.getD (i - 4) 0)

def xorfwd (x : Bytes) : Bytes := (List.range' 4 (x.length - 4)).foldl xorAt x

def xorbkd (x : Bytes) : Bytes := (List.range' 4 (x.length - 4)).reverse.foldl xorAt x

/-- The hash, the length and the text. -/
def frame (plain : Bytes) : Bytes :=
  let body := putUint16 (UInt16.ofNat plain.length) ++ plain
  putUint32 (fnv32a body) ++ body

/-- The zeros that are appended before either loop. -/
def padding (dstLen : Nat) : Nat := if 4 - dstLen % 4 ≠ 4 then 4 - dstLen % 4 else 0

/-- `Seal` to a slice with this capacity, enough for what it returns: the slice it returns and what it leaves
in the array behind `dst`. If the padding does not fit, `append` moves to a new array and the old one keeps
the text as it was. -/
def sealTo (capacity : Nat) (plain : Bytes) : Bytes × Bytes :=
  let dst := frame plain
  let out := (xorfwd (dst ++ List.replicate (padding dst.length) 0)).take dst.length
  (out, if dst.length + padding dst.length ≤ capacity then out else dst)

/-- `Open`, of a text with at least the overhead. -/
def openText (cipherText : Bytes) : Except Error Bytes :=
  let dst := (xorbkd (cipherText ++ List.replicate (padding cipherText.length) 0)).take cipherText.length
  if dst.length < overhead then .error .panicked
  else if uint32 dst ≠ fnv32a (dst.drop 4) then .error (.new (ascii "invalid auth"))
  else if dst.length - overhead ≠ (uint16 (dst.drop 4)).toNat then .error (.new (ascii "invalid auth"))
  else .ok (dst.drop overhead)

end SimpleAuthenticator

/-- An ideal AEAD opens what it sealed under a nonce. -/
structure Aead where
  nonceSize : Nat
  overhead : Nat
  sealText : Bytes → Bytes → Bytes
  openText : Bytes → Bytes → Option Bytes
  length_sealText : ∀ nonce plain, (sealText nonce plain).length = plain.length + overhead
  openText_sealText : ∀ nonce plain, openText nonce (sealText nonce plain) = some plain

inductive Security where
  | simple
  | aead (cipher : Aead)

namespace Security

def nonceSize : Security → Nat
  | .simple => 0
  | .aead cipher => cipher.nonceSize

def overhead : Security → Nat
  | .simple => SimpleAuthenticator.overhead
  | .aead cipher => cipher.overhead

/-- What `Seal` leaves in an array of this capacity. An AEAD panics on a nonce of another size than its own. -/
def sealTo (capacity : Nat) (nonce plain : Bytes) : Security → Except Error Bytes
  | .simple => .ok (SimpleAuthenticator.sealTo capacity plain).2
  | .aead cipher =>
      if nonce.length = cipher.nonceSize then .ok (cipher.sealText nonce plain) else .error .panicked

/-- `Open`, and whether it fails. -/
def openText (nonce cipherText : Bytes) : Security → Except Error (Option Bytes)
  | .simple =>
      match SimpleAuthenticator.openText cipherText with
      | .ok plain => .ok (some plain)
      | .error .panicked => .error .panicked
      | .error _ => .ok none
  | .aead cipher => .ok (cipher.openText nonce cipherText)

end Security

/-- The size of the arrays of the buffer pool. -/
def arraySize : Nat := 8192

namespace KCPPacketWriter

/-- `Overhead`. -/
def overhead (header : Option Bytes) (security : Option Security) : Nat :=
  (header.map List.length).getD 0 + (security.map Security.overhead).getD 0

/-- `bb.BytesFrom(-n)`, the last `n` bytes; no minus tells zero from all of them. -/
def lastBytes (b : Bytes) (n : Nat) : Bytes := if n = 0 then b else b.drop (b.length - n)

/-- `Write`, with the bytes of the header and the nonce drawn: what goes to the writer below. -/
def write (header : Option Bytes) (security : Option Security) (drawn b : Bytes) : Except Error Bytes :=
  let bb := header.getD []
  if arraySize < bb.length then .error .panicked
  else
    match security with
    | none => .ok (bb ++ b.take (arraySize - bb.length))
    | some security =>
        if arraySize < bb.length + security.nonceSize then .error .panicked
        else do
          let bb := bb ++ drawn
          if arraySize < bb.length + (security.overhead + b.length) then .error .panicked
          else do
            let out ← security.sealTo (arraySize - bb.length) (lastBytes bb security.nonceSize) b
            .ok (bb ++ out)

end KCPPacketWriter

namespace KCPPacketReader

def readPlain (security : Option Security) (b : Bytes) : Except Error (Option Bytes) :=
  match security with
  | none => .ok (some b)
  | some security =>
      if b.length ≤ security.nonceSize + security.overhead then .ok none
      else security.openText (b.take security.nonceSize) (b.drop security.nonceSize)

/-- `Read`. -/
def read (headerSize : Option Nat) (security : Option Security) (b : Bytes) :
    Except Error (List (Segment Bytes)) :=
  match headerSize with
  | some size =>
      if int32 b.length ≤ size then .ok []
      else do
        let b ← sliceFrom b size
        segments (← readPlain security b)
  | none => do segments (← readPlain security b)
where
  segments : Option Bytes → Except Error (List (Segment Bytes))
    | none => .ok []
    | some b => readSegments b.length b

end KCPPacketReader

end V2RootCore.Kcp
