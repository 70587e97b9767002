import V2RootCore.Crypto.Aead
import V2RootCore.Buf.Reader
import V2RootCore.Go.Slices

/-!
# Chunks on a stream

`AuthenticationWriter` and `AuthenticationReader` send sealed chunks, `ChunkStreamWriter` and
`ChunkStreamReader` plain ones. A chunk starts with its size, in the form that a size parser gives it.
Size parsers and padding generators are objects that may share state: both are functions on one type
`σ` of states, which is left open here. The loops of the source that end when the data does have fuel;
to run out of it counts as a panic.
-/

namespace V2RootCore.Crypto

open Go Buf

/-- A source of bytes without end, and how much of it was used. -/
structure ByteStream where
  byte : Nat → UInt8
  used : Nat := 0

def ByteStream.read (s : ByteStream) (n : Nat) : Bytes × ByteStream :=
  ((List.range n).map fun i => s.byte (s.used + i), { s with used := s.used + n })

/-- `BytesGenerator`, by what each of its calls returns. -/
structure BytesGenerator where
  bytes : Nat → Bytes
  calls : Nat := 0

def BytesGenerator.next (g : BytesGenerator) : Bytes × BytesGenerator :=
  (g.bytes g.calls, { g with calls := g.calls + 1 })

def generateEmptyBytes : BytesGenerator := { bytes := fun _ => [] }

structure AEADAuthenticator where
  aead : Cipher
  nonceGenerator : BytesGenerator
  additionalDataGenerator : Option BytesGenerator

namespace AEADAuthenticator

def nextNonce (v : AEADAuthenticator) : Except Error Bytes × AEADAuthenticator :=
  let (iv, nonceGenerator) := v.nonceGenerator.next
  let v := { v with nonceGenerator }
  if iv.length ≠ v.aead.nonceSize then
    (.error (.new (ascii "invalid AEAD nonce size: " ++ formatUint iv.length)), v)
  else (.ok iv, v)

def nextAdditionalData (v : AEADAuthenticator) : Bytes × AEADAuthenticator :=
  match v.additionalDataGenerator with
  | none => ([], v)
  | some generator =>
      let (additionalData, generator) := generator.next
      (additionalData, { v with additionalDataGenerator := some generator })

/-- `AEADAuthenticator.Seal`. -/
def sealBytes (v : AEADAuthenticator) (plainText : Bytes) : Except Error Bytes × AEADAuthenticator :=
  match v.nextNonce with
  | (.error err, v) => (.error err, v)
  | (.ok iv, v) =>
      let (additionalData, v) := v.nextAdditionalData
      (.ok (v.aead.sealBytes iv plainText additionalData), v)

/-- The error of a cipher that does not accept a text; its text differs between the libraries. -/
def openError : Error := .new (ascii "message authentication failed")

/-- `AEADAuthenticator.Open`. -/
def openBytes (v : AEADAuthenticator) (cipherText : Bytes) : Except Error Bytes × AEADAuthenticator :=
  match v.nextNonce with
  | (.error err, v) => (.error err, v)
  | (.ok iv, v) =>
      let (additionalData, v) := v.nextAdditionalData
      match v.aead.openBytes iv cipherText additionalData with
      | none => (.error openError, v)
      | some plainText => (.ok plainText, v)

/-- The pairs of key and nonce of all calls so far: each takes the next nonce. -/
def uses (v : AEADAuthenticator) : List (Bytes × Bytes) :=
  (List.range v.nonceGenerator.calls).map fun count => (v.aead.key, v.nonceGenerator.bytes count)

end AEADAuthenticator

/-- `ChunkSizeEncoder` and `ChunkSizeDecoder`. -/
structure ChunkSizeParser (σ : Type) where
  sizeBytes : Nat
  encode : σ → UInt16 → Except Error Bytes × σ
  decode : σ → Bytes → Except Error UInt16 × σ

structure PaddingLengthGenerator (σ : Type) where
  maxPaddingLen : Nat
  nextPaddingLen : σ → UInt16 × σ

variable {σ ρ : Type}

def plainChunkSizeParser : ChunkSizeParser σ where
  sizeBytes := 2
  encode st size := (.ok (putUint16 size), st)
  decode st b := (.ok (uint16 b), st)

/-- `AEADChunkSizeParser`, with its authenticator somewhere in the state. A failure to seal panics. -/
def aeadChunkSizeParser (overhead : Nat) (auth : σ → AEADAuthenticator)
    (setAuth : σ → AEADAuthenticator → σ) : ChunkSizeParser σ where
  sizeBytes := 2 + overhead
  encode st size :=
    match (auth st).sealBytes (putUint16 (size - UInt16.ofNat overhead)) with
    | (.error _, v) => (.error .panicked, setAuth st v)
    | (.ok b, v) => (.ok b, setAuth st v)
  decode st b :=
    match (auth st).openBytes b with
    | (.error err, v) => (.error err, setAuth st v)
    | (.ok b, v) => (.ok (uint16 b + UInt16.ofNat overhead), setAuth st v)

inductive TransferType where
  | stream
  | packet
  deriving DecidableEq

/-- The padding of the next chunk; without a generator there is none. -/
def nextPadding (padding : Option (PaddingLengthGenerator σ)) (st : σ) : UInt16 × σ :=
  match padding with
  | none => (0, st)
  | some generator => generator.nextPaddingLen st

/-- The room to leave for padding. -/
def maxPadding (padding : Option (PaddingLengthGenerator σ)) : Nat :=
  match padding with
  | none => 0
  | some generator => generator.maxPaddingLen

structure AuthenticationWriter (σ : Type) where
  auth : AEADAuthenticator
  sizeParser : ChunkSizeParser σ
  padding : Option (PaddingLengthGenerator σ)
  state : σ
  transferType : TransferType
  /-- `crypto/rand`. -/
  random : ByteStream

namespace AuthenticationWriter

/-- `seal`. The padding length is drawn before the size is checked. -/
def sealChunk (w : AuthenticationWriter σ) (b : Bytes) : Except Error Bytes × AuthenticationWriter σ :=
  let encryptedSize := b.length + w.auth.aead.overhead
  let (paddingSize, state) := nextPadding w.padding w.state
  let w := { w with state }
  let totalSize := w.sizeParser.sizeBytes + encryptedSize + paddingSize.toNat
  if size < totalSize then
    (.error (.new (ascii "size too large: " ++ formatUint totalSize)), w)
  else
    match w.sizeParser.encode w.state (UInt16.ofNat (encryptedSize + paddingSize.toNat)) with
    | (.error err, state) => (.error err, { w with state })
    | (.ok sizeField, state) =>
        match w.auth.sealBytes b with
        | (.error err, auth) => (.error err, { w with state, auth })
        | (.ok sealed, auth) =>
            let (paddingBytes, random) := w.random.read paddingSize.toNat
            (.ok (sizeField ++ sealed ++ paddingBytes), { w with state, auth, random })

/-- The number of bytes that a chunk of a stream holds. -/
def payloadSize (w : AuthenticationWriter σ) : Nat :=
  size - w.auth.aead.overhead - w.sizeParser.sizeBytes - maxPadding w.padding

/-- The loop of `writeStream`, which gives up what it has sealed when a chunk fails. -/
def writeStreamLoop : Nat → AuthenticationWriter σ → MultiBuffer ρ → Bytes →
    Except Error Bytes × AuthenticationWriter σ
  | 0, w, _, _ => (.error .panicked, w)
  | fuel + 1, w, mb, mb2Write =>
      let (mb, rawBytes) := mb.splitBytes w.payloadSize
      match w.sealChunk rawBytes with
      | (.error err, w) => (.error err, w)
      | (.ok eb, w) =>
          if mb.isEmpty then (.ok (mb2Write ++ eb), w)
          else writeStreamLoop fuel w mb (mb2Write ++ eb)

def writeStream (w : AuthenticationWriter σ) (mb : MultiBuffer ρ) :
    Except Error Bytes × AuthenticationWriter σ :=
  writeStreamLoop (mb.len + 1) w mb []

/-- The loop of `writePacket`, which drops a packet that fails. -/
def writePacket (w : AuthenticationWriter σ) : MultiBuffer ρ → Bytes × AuthenticationWriter σ
  | [] => ([], w)
  | b :: rest =>
      if b.len = 0 then w.writePacket rest
      else
        match w.sealChunk b.bytes with
        | (.error _, w) => w.writePacket rest
        | (.ok eb, w) =>
            let (ebs, w) := w.writePacket rest
            (eb ++ ebs, w)

/-- `WriteMultiBuffer`, by the bytes that it writes. A failure to seal the empty chunk panics. -/
def writeMultiBuffer (w : AuthenticationWriter σ) (mb : MultiBuffer ρ) :
    Except Error Bytes × AuthenticationWriter σ :=
  if mb.isEmpty then
    match w.sealChunk [] with
    | (.error _, w) => (.error .panicked, w)
    | (.ok eb, w) => (.ok eb, w)
  else
    match w.transferType with
    | .stream => w.writeStream mb
    | .packet =>
        let (ebs, w) := w.writePacket mb
        (.ok ebs, w)

end AuthenticationWriter

structure AuthenticationReader (σ ρ : Type) where
  auth : AEADAuthenticator
  sizeParser : ChunkSizeParser σ
  padding : Option (PaddingLengthGenerator σ)
  state : σ
  reader : BufferedReader ρ
  size : UInt16 := 0
  paddingLen : UInt16 := 0
  hasSize : Bool := false
  done : Bool := false

/-- What `readInternal` returns: `errSoft` is told from the other errors by its identity. -/
inductive Outcome (ρ : Type) where
  | errSoft
  | error (err : Error)
  | ok (mb : MultiBuffer ρ)

/-- `Buffer.BytesTo`. -/
def bytesTo (b : Bytes) (upTo : Int) : Bytes :=
  b.take (if upTo < 0 then upTo + b.length else upTo).toNat

/-- The loop of `MergeBytes`. -/
def newBuffers : Nat → Bytes → MultiBuffer ρ
  | 0, _ => []
  | fuel + 1, src =>
      if src = [] then [] else { bytes := src.take Buf.size } :: newBuffers fuel (src.drop Buf.size)

def mergeBytes (dest : MultiBuffer ρ) (src : Bytes) : MultiBuffer ρ :=
  match dest.getLast? with
  | none => newBuffers src.length src
  | some last =>
      let room := Buf.size - last.len
      dest.dropLast ++ { last with bytes := last.bytes ++ src.take room } ::
        newBuffers src.length (src.drop room)

namespace AuthenticationReader

def readSize (r : AuthenticationReader σ ρ) :
    Except Error (UInt16 × UInt16) × AuthenticationReader σ ρ :=
  if r.hasSize then (.ok (r.size, r.paddingLen), { r with hasSize := false })
  else
    match r.reader.readFull r.sizeParser.sizeBytes with
    | (.error err, reader) => (.error err, { r with reader })
    | (.ok sizeBytes, reader) =>
        let (padding, state) := nextPadding r.padding r.state
        match r.sizeParser.decode state sizeBytes with
        | (.error err, state) => (.error err, { r with reader, state })
        | (.ok size, state) => (.ok (size, padding), { r with reader, state })

def readBuffer (r : AuthenticationReader σ ρ) (size padding : UInt16) :
    Except Error (Buffer ρ) × AuthenticationReader σ ρ :=
  match r.reader.readFull size.toNat with
  | (.error err, reader) => (.error err, { r with reader })
  | (.ok b, reader) =>
      match r.auth.openBytes (bytesTo b (size.toNat - padding.toNat : Int)) with
      | (.error err, auth) => (.error err, { r with reader, auth })
      | (.ok rb, auth) => (.ok { bytes := rb }, { r with reader, auth })

/-- The last part of `readInternal`, for a chunk that does not fit in a buffer. -/
def readLarge (r : AuthenticationReader σ ρ) (size padding : UInt16) :
    Except Error Bytes × AuthenticationReader σ ρ :=
  match r.reader.readFull size.toNat with
  | (.error err, reader) => (.error err, { r with reader })
  | (.ok payload, reader) =>
      match r.auth.openBytes (payload.take (size - padding).toNat) with
      | (.error err, auth) => (.error err, { r with reader, auth })
      | (.ok rb, auth) => (.ok rb, { r with reader, auth })

def readInternal (soft : Bool) (r : AuthenticationReader σ ρ) (mb : MultiBuffer ρ) :
    Outcome ρ × AuthenticationReader σ ρ :=
  if soft ∧ r.reader.buffer.len < r.sizeParser.sizeBytes then (.errSoft, r)
  else if r.done then (.error .eof, r)
  else
    match r.readSize with
    | (.error err, r) => (.error err, r)
    | (.ok (size, padding), r) =>
        if size = UInt16.ofNat r.auth.aead.overhead + padding then
          (.error .eof, { r with done := true })
        else if soft ∧ r.reader.buffer.len < size.toNat then
          (.errSoft, { r with size, paddingLen := padding, hasSize := true })
        else if size.toNat ≤ Buf.size then
          match r.readBuffer size padding with
          | (.error err, r) => (.error err, r)
          | (.ok b, r) => (.ok (mb ++ [b]), r)
        else
          match r.readLarge size padding with
          | (.error err, r) => (.error err, r)
          | (.ok rb, r) => (.ok (mergeBytes mb rb), r)

/-- The loop of `ReadMultiBuffer`, with the number of soft reads to go. -/
def softReads : Nat → AuthenticationReader σ ρ → MultiBuffer ρ →
    Except Error (MultiBuffer ρ) × AuthenticationReader σ ρ
  | 0, r, mb => (.ok mb, r)
  | n + 1, r, mb =>
      match r.readInternal true mb with
      | (.errSoft, r) => (.ok mb, r)
      | (.error err, r) => if err = .eof then (.ok mb, r) else (.error err, r)
      | (.ok mb, r) => softReads n r mb

def readMultiBuffer (r : AuthenticationReader σ ρ) :
    Except Error (MultiBuffer ρ) × AuthenticationReader σ ρ :=
  match r.readInternal false [] with
  | (.errSoft, r) => (.error (.new (ascii "waiting for more data")), r)
  | (.error err, r) => (.error err, r)
  | (.ok mb, r) => softReads 15 r mb

end AuthenticationReader

structure ChunkStreamWriter (σ : Type) where
  sizeEncoder : ChunkSizeParser σ
  state : σ

namespace ChunkStreamWriter

/-- The loop of `WriteMultiBuffer`. -/
def writeLoop : Nat → ChunkStreamWriter σ → MultiBuffer ρ → Bytes →
    Except Error Bytes × ChunkStreamWriter σ
  | 0, w, _, _ => (.error .panicked, w)
  | fuel + 1, w, mb, mb2Write =>
      match mb.splitSize 8192 with
      | .error err => (.error err, w)
      | .ok (mb, slice) =>
          match w.sizeEncoder.encode w.state (UInt16.ofNat slice.len) with
          | (.error err, state) => (.error err, { w with state })
          | (.ok sizeField, state) =>
              let w := { w with state }
              let mb2Write := mb2Write ++ sizeField ++ slice.bytes
              if mb.isEmpty then (.ok mb2Write, w) else writeLoop fuel w mb mb2Write

/-- `MultiBuffer.Len` in its 32 bits. -/
def mbLen (mb : MultiBuffer ρ) : Int := mb.foldl (fun size b => int32 (size + b.len)) 0

/-- The capacity of `mb2Write`. -/
def capacity (mb : MultiBuffer ρ) : Int := (mbLen mb).tdiv size + (mbLen mb).tdiv 8192 + 2

/-- `WriteMultiBuffer`. To make a slice of negative capacity panics. -/
def writeMultiBuffer (w : ChunkStreamWriter σ) (mb : MultiBuffer ρ) :
    Except Error Bytes × ChunkStreamWriter σ :=
  if capacity mb < 0 then (.error .panicked, w) else writeLoop (mb.length + mb.len + 1) w mb []

end ChunkStreamWriter

/-- `ChunkStreamReader` without a limit on the number of chunks. -/
structure ChunkStreamReader (σ ρ : Type) where
  sizeDecoder : ChunkSizeParser σ
  state : σ
  reader : BufferedReader ρ
  leftOverSize : Nat := 0

namespace ChunkStreamReader

/-- The second half of `ReadMultiBuffer`, with the size of the chunk or of what is left of it. -/
def readChunk (r : ChunkStreamReader σ ρ) (n : Nat) :
    Except Error (MultiBuffer ρ) × ChunkStreamReader σ ρ :=
  match r.reader.readAtMost n with
  | (.error err, reader) => (.error err, { r with reader, leftOverSize := n })
  | (.ok mb, reader) =>
      if mb.isEmpty then (.ok [], { r with reader, leftOverSize := n })
      else (.ok mb, { r with reader, leftOverSize := n - mb.len })

def readMultiBuffer (r : ChunkStreamReader σ ρ) :
    Except Error (MultiBuffer ρ) × ChunkStreamReader σ ρ :=
  if r.leftOverSize = 0 then
    match r.reader.readFull r.sizeDecoder.sizeBytes with
    | (.error err, reader) => (.error err, { r with reader })
    | (.ok buffer, reader) =>
        match r.sizeDecoder.decode r.state buffer with
        | (.error err, state) => (.error err, { r with reader, state })
        | (.ok nextSize, state) =>
            let r := { r with reader, state }
            if nextSize = 0 then (.error .eof, r) else r.readChunk nextSize.toNat
  else r.readChunk r.leftOverSize

end ChunkStreamReader

end V2RootCore.Crypto
