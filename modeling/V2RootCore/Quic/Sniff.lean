import V2RootCore.Buf.RawBuffer
import V2RootCore.Tls.Sniff

/-!
# The sniffer for QUIC

`SniffQUIC` reads the packets of a datagram, decrypts the initial ones, whose keys are public, and puts the
data of their CRYPTO frames together until it has the server name of a client hello. The derivation of the
keys, the header protection, the AEAD and `quicvarint.Read` are parameters.
-/

namespace V2RootCore.Quic

open Go Buf RawBuffer Tls

def versionDraft29 : UInt32 := 0xff00001d

def version1 : UInt32 := 0x1

def errNotQuic : Error := .new (ascii "not quic")

def errNotQuicInitial : Error := .new (ascii "not initial packet")

def errShortBuffer : Error := .new (ascii "short buffer")

def errOpen : Error := .new (ascii "cipher: message authentication failed")

/-- What is done with the keys of a version and a connection. -/
structure Suite where
  /-- The header protection mask for a sample. -/
  encrypt : UInt32 → Bytes → Bytes → Bytes
  /-- The plaintext for a nonce, the data and the additional data. -/
  openData : UInt32 → Bytes → Bytes → Bytes → Bytes → Option Bytes
  encrypt_length : ∀ version connID sample, (encrypt version connID sample).length = 16
  openData_length : ∀ version connID nonce data additional plaintext,
    openData version connID nonce data additional = some plaintext → plaintext.length + 16 = data.length

/-- A number of one, two, four or eight bytes. -/
structure Varint where
  first : UInt8
  more : Bytes
  length_eq : more.length = 2 ^ (first.toNat / 64) - 1

namespace Varint

def bytes (n : Varint) : Bytes := n.first :: n.more

def value (n : Varint) : Nat := n.more.foldl (fun value x => 256 * value + x.toNat) (n.first.toNat % 64)

end Varint

/-- `quicvarint.Read`: the number at the beginning of what a buffer has, or an error. -/
class VarintReader where
  readVarint : Reading Nat
  readVarint_ok : ∀ (n : Varint) (b : RawBuffer) (rest : Bytes), b.stop < 2 ^ 31 →
    b.bytes = .ok (n.bytes ++ rest) →
    readVarint b = .ok (n.value, { b with start := b.start + n.bytes.length })
  readVarint_error : ∀ (b : RawBuffer) (data : Bytes), b.stop < 2 ^ 31 → b.bytes = .ok data →
    (∀ (n : Varint) (rest : Bytes), data ≠ n.bytes ++ rest) →
    ∃ err, readVarint b = .error err ∧ err ≠ .panicked

export VarintReader (readVarint)

variable [VarintReader]

structure Header where
  versionNumber : UInt32
  destConnID : Bytes
  isQuicInitial : Bool
  packetLen : Nat
  deriving DecidableEq

/-- Bytes behind their length. -/
def readConnID : Reading Bytes := do
  let l ← readByte
  readBytes l.toNat

/-- The token, which only initial packets have. -/
def readToken (isQuicInitial : Bool) (b : Bytes) : Reading Unit :=
  if isQuicInitial then do
    let tokenLen ← readVarint.orFail errNotQuic
    if b.length < tokenLen then throw errNotQuic
    else do
      let _ ← (readBytes (int32 tokenLen)).orFail errNotQuic
      pure ()
  else pure ()

/-- The header of a packet up to its length. -/
def readHeader (b : Bytes) : Reading Header := do
  let typeByte ← readByte.orFail errNotQuic
  if typeByte &&& 0x80 = 0 ∨ typeByte &&& 0x40 = 0 then throw errNotQuicInitial
  else do
    let vb ← (readBytes 4).orFail errNotQuic
    let versionNumber := uint32 vb
    if versionNumber ≠ 0 ∧ typeByte &&& 0x40 = 0 then throw errNotQuic
    else if versionNumber ≠ versionDraft29 ∧ versionNumber ≠ version1 then throw errNotQuic
    else do
      let isQuicInitial := decide ((typeByte &&& 0x30) >>> 4 = 0)
      let destConnID ← readConnID.orFail errNotQuic
      let _ ← readConnID.orFail errNotQuic
      readToken isQuicInitial b
      let packetLen ← readVarint.orFail errNotQuic
      if packetLen < 4 then throw errNotQuic
      else pure { versionNumber, destConnID, isQuicInitial, packetLen }

/-- `b[i] ^= x`. -/
def xorByteAt (b : Bytes) (i : Int) (x : UInt8) : Except Error Bytes := do
  let y ← byteAt b i
  setByteAt b i (y ^^^ x)

/-- The packet number is unmasked byte by byte. -/
def xorPacketNumber (hdrLen : Int) (mask : Bytes) : Nat → Bytes → Except Error Bytes
  | 0, b => .ok b
  | i + 1, b => do
      let b ← xorPacketNumber hdrLen mask i b
      let x ← byteAt mask (i + 1)
      xorByteAt b (hdrLen + i) x

/-- The plaintext of an initial packet. -/
def decrypt (suite : Suite) (b : Bytes) (header : Header) (hdrLen : Int) (buffer : RawBuffer) :
    Except Error Bytes := do
  let (mask, cache) ← RawBuffer.new.extend 16
  let sample ← slice b (hdrLen + 4) (hdrLen + 4 + mask.length)
  let mask := suite.encrypt header.versionNumber header.destConnID sample
  let x ← byteAt mask 0
  let b ← xorByteAt b 0 (x &&& 0xf)
  let typeByte ← byteAt b 0
  let packetNumberLength := (typeByte &&& 0x3).toNat + 1
  let b ← xorPacketNumber hdrLen mask packetNumberLength b
  let (nonce, _) ← cache.extend 8
  let (packetNumber, _) ← read packetNumberLength { buffer with v := b }
  let nonce := copyTo nonce (nonce.length - packetNumberLength) packetNumber
  let extHdrLen := hdrLen + packetNumberLength
  let data ← slice b extHdrLen (header.packetLen + hdrLen)
  let additional ← slice b 0 extHdrLen
  match suite.openData header.versionNumber header.destConnID nonce data additional with
  | some decrypted => .ok decrypted
  | none => .error errOpen

/-- The crypto data of all packets up to now. -/
structure Crypto where
  cryptoDataBuf : RawBuffer := { v := List.replicate 32768 0 }
  cryptoLen : Int := 0
  deriving DecidableEq

/-- The first byte that is not padding, or the last one. -/
def readFrameType : Nat → Reading UInt8
  | 0 => throw .panicked
  | fuel + 1 => do
      let frameType ← readByte
      let buffer ← get
      if frameType = 0 ∧ ¬buffer.isEmpty then readFrameType fuel else pure frameType

def skipVarint : Reading Unit := do
  let _ ← readVarint.orFail .unexpectedEOF
  pure ()

/-- The ranges of an ACK frame. -/
def skipAckRanges : Nat → Reading Unit
  | 0 => pure ()
  | n + 1 => do
      skipVarint
      skipVarint
      skipAckRanges n

def ackFrame (frameType : UInt8) : Reading Unit := do
  skipVarint
  skipVarint
  let ackRangeCount ← readVarint.orFail .unexpectedEOF
  skipVarint
  skipAckRanges ackRangeCount
  if frameType = 0x03 then do
    skipVarint
    skipVarint
    skipVarint
  else pure ()

/-- The offset and the length of a CRYPTO frame. -/
def cryptoFields : Reading (Nat × Nat) := do
  let offset ← readVarint.orFail .unexpectedEOF
  let length ← readVarint.orFail .unexpectedEOF
  let buffer ← get
  if uint64 buffer.len < length then throw .unexpectedEOF else pure (offset, length)

/-- The crypto data is extended to a length. -/
def Crypto.extendTo (s : Crypto) (currentCryptoLen : Int) : Except Error Crypto :=
  if s.cryptoLen < currentCryptoLen then
    if s.cryptoDataBuf.cap < currentCryptoLen then .error errShortBuffer
    else do
      let (_, cryptoDataBuf) ← s.cryptoDataBuf.extend (int32 (currentCryptoLen - s.cryptoLen))
      .ok { cryptoDataBuf, cryptoLen := currentCryptoLen }
  else .ok s

/-- The data of a CRYPTO frame is read to its place. -/
def Crypto.readData (s : Crypto) (offset length : Nat) : Reading Crypto := fun buffer => do
  let currentCryptoLen := int32 (offset + length)
  let s ← s.extendTo currentCryptoLen
  let (low, high) ← s.cryptoDataBuf.bytesRange (int32 offset) currentCryptoLen
  let (data, buffer) ← (read (high - low).toNat).orFail .unexpectedEOF buffer
  let v := copyTo s.cryptoDataBuf.v low.toNat data
  .ok ({ s with cryptoDataBuf := { s.cryptoDataBuf with v } }, buffer)

/-- The length of the reason of a CONNECTION_CLOSE frame. -/
def closeField : Reading Nat := do
  skipVarint
  skipVarint
  readVarint.orFail .unexpectedEOF

/-- What follows the type of a frame. -/
def frameBody (s : Crypto) (frameType : UInt8) : Reading Crypto :=
  match frameType with
  | 0x00 | 0x01 => pure s
  | 0x02 | 0x03 => do
      ackFrame frameType
      pure s
  | 0x06 => do
      let fields ← cryptoFields
      s.readData fields.1 fields.2
  | 0x1c => do
      let length ← closeField
      let _ ← (readBytes (int32 length)).orFail .unexpectedEOF
      pure s
  | _ => throw errNotQuicInitial

/-- One frame of a plaintext. -/
def frame (s : Crypto × RawBuffer) : Except Error (Crypto ⊕ Crypto × RawBuffer) :=
  if s.2.isEmpty then .ok (.inl s.1)
  else do
    let (frameType, buffer) ← readFrameType (s.2.v.length + 1) s.2
    let (crypto, buffer) ← frameBody s.1 frameType buffer
    .ok (.inr (crypto, buffer))

def frames (s : Crypto) (decrypted : Bytes) : Except Error Crypto :=
  loop .panicked frame (decrypted.length + 1) (s, fromBytes decrypted)

/-- The frames of a plaintext, and the client hello in the crypto data up to now: the server name, or what
is known and the packets after this one. -/
def readPlaintext (s : Crypto) (restPayload decrypted : Bytes) :
    Except Error (Bytes ⊕ Crypto × Bytes) := do
  let s ← frames s decrypted
  let (low, high) ← s.cryptoDataBuf.bytesRange 0 s.cryptoLen
  let data ← slice s.cryptoDataBuf.v low high
  match readClientHello data with
  | .ok domain => .ok (.inl domain)
  | .error .panicked => .error .panicked
  | .error _ => .ok (.inr (s, restPayload))

/-- One packet. -/
def packet (suite : Suite) (s : Crypto × Bytes) : Except Error (Bytes ⊕ Crypto × Bytes) :=
  let b := s.2
  if b = [] then .error errProtoNeedMoreData
  else do
    let (header, buffer) ← readHeader b (fromBytes b)
    let hdrLen := b.length - buffer.len
    if b.length < hdrLen + header.packetLen then .error errNoClue
    else do
      let restPayload ← sliceFrom b (hdrLen + header.packetLen)
      if ¬header.isQuicInitial then .ok (.inr (s.1, restPayload))
      else do
        let decrypted ← decrypt suite b header hdrLen buffer
        readPlaintext s.1 restPayload decrypted

/-- `SniffQUIC`: the domain. -/
def sniffQUIC (suite : Suite) (b : Bytes) : Except Error Bytes :=
  if b = [] then .error errNoClue else loop .panicked (packet suite) (b.length + 1) ({}, b)

end V2RootCore.Quic
