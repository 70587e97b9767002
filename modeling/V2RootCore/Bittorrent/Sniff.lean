import V2RootCore.Buf.RawBuffer
import V2RootCore.Tls.Sniff

/-!
# The sniffer for uTP

The difference of the current time, in microseconds, and the timestamp of a packet is compared with a
duration, which counts nanoseconds. Both are exact as a `float64` up to the bound, so that the comparison
is that of the integers.
-/

namespace V2RootCore.Bittorrent

open Go Buf RawBuffer

def errNotBittorrent : Error := .new (ascii "not bittorrent header")

/-- `24 * time.Hour`. -/
def day : Nat := 24 * 3600 * 1000000000

/-- The bytes of a value for `binary.Read`. A buffer with fewer of them is empty after one `Read`. -/
def binaryRead (n : Nat) : Reading Bytes := do
  let data ← read n
  if data.length < n then throw .unexpectedEOF else pure data

def readUint8 : Reading UInt8 := do
  let data ← (binaryRead 1).orFail Tls.errNoClue
  pure (data.getD 0 0)

def readUint32 : Reading UInt32 := do
  let data ← (binaryRead 4).orFail Tls.errNoClue
  pure (uint32 data)

def skip (length : Int) : Reading Unit := do
  let _ ← (readBytes length).orFail Tls.errNoClue
  pure ()

/-- One extension: the type of the next one stands before its length. -/
def readExtension : Reading UInt8 := do
  let extension ← readUint8
  let length ← readUint8
  skip length.toNat
  pure extension

def nextExtension (s : UInt8 × RawBuffer) : Except Error (RawBuffer ⊕ UInt8 × RawBuffer) :=
  if s.1 = 0 then .ok (.inl s.2)
  else if s.1 ≠ 1 then .error errNotBittorrent
  else do
    let s ← readExtension s.2
    .ok (.inr s)

def sniffUTP (now : Int) (b : Bytes) : Except Error Unit :=
  if b.length < 20 then .error Tls.errNoClue
  else do
    let (_, buffer) ← readUint8 (fromBytes b)
    let typeAndVersion ← byteAt b 0
    if 4 < ((typeAndVersion >>> 4) &&& 0xf).toNat ∨ typeAndVersion &&& 0xf ≠ 1 then .error errNotBittorrent
    else do
      let (extension, buffer) ← readUint8 buffer
      if extension ≠ 0 ∧ extension ≠ 1 then .error errNotBittorrent
      else do
        let buffer ← loop .panicked nextExtension (b.length + 1) (extension, buffer)
        let (_, buffer) ← skip 2 buffer
        let (timestamp, _) ← readUint32 buffer
        if day < (now - timestamp.toNat).natAbs then .error errNotBittorrent else .ok ()

end V2RootCore.Bittorrent
