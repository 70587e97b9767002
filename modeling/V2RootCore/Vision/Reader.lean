import V2RootCore.Vision.Padding
import V2RootCore.Crypto.Auth

/-!
# The reader of Vision

`VisionReader` unpads what its reader returns until the last block has been read, and then goes on with
the raw connection if it was told so. A multi-buffer is the list of the contents of its buffers, and the
readers return the multi-buffers of a list one by one and then `io.EOF`. Counters and the preparation of
splicing are left out.
-/

namespace V2RootCore.Vision

open Go

def tls13SupportedVersions : Bytes := [0x00, 0x2b, 0x00, 0x02, 0x03, 0x04]

def tlsClientHandShakeStart : Bytes := [0x16, 0x03]

def tlsServerHandShakeStart : Bytes := [0x16, 0x03, 0x03]

def tlsHandshakeTypeClientHello : UInt8 := 1

def tlsHandshakeTypeServerHello : UInt8 := 2

def tls13CipherSuiteDic : UInt16 → Option Bytes
  | 0x1301 => some (ascii "TLS_AES_128_GCM_SHA256")
  | 0x1302 => some (ascii "TLS_AES_256_GCM_SHA384")
  | 0x1303 => some (ascii "TLS_CHACHA20_POLY1305_SHA256")
  | 0x1304 => some (ascii "TLS_AES_128_CCM_SHA256")
  | 0x1305 => some (ascii "TLS_AES_128_CCM_8_SHA256")
  | _ => none

structure TrafficState where
  userUUID : Bytes
  numberOfPacketToFilter : Int := 8
  enableXtls : Bool := false
  isTLS12orAbove : Bool := false
  isTLS : Bool := false
  cipher : UInt16 := 0
  remainingServerHello : Int := -1
  inbound : LinkState := {}
  outbound : LinkState := {}

namespace TrafficState

/-- The state of the reader of the link that is read. -/
def link (s : TrafficState) (isUplink : Bool) : LinkState := if isUplink then s.inbound else s.outbound

def setLink (s : TrafficState) (isUplink : Bool) (link : LinkState) : TrafficState :=
  if isUplink then { s with inbound := link } else { s with outbound := link }

/-- The hello messages at the start of a buffer. The cipher suite is read at its place even where the
buffer ends before; `memory` is what lies there. -/
def filterHello (memory : Nat → UInt8) (s : TrafficState) (b : Bytes) : TrafficState :=
  if 6 ≤ b.length then
    if b.take 3 = tlsServerHandShakeStart ∧ b[5]? = some tlsHandshakeTypeServerHello then
      let s := { s with
        remainingServerHello := ((uint16 (b.drop 3)).toNat : Int) + 5
        isTLS12orAbove := true
        isTLS := true }
      if 79 ≤ b.length ∧ 79 ≤ s.remainingServerHello then
        let sessionIdLen := (b.getD 43 0).toNat
        let byteAt := fun i => b[i]?.getD (memory i)
        { s with cipher := uint16 [byteAt (43 + sessionIdLen + 1), byteAt (43 + sessionIdLen + 2)] }
      else s
    else if b.take 2 = tlsClientHandShakeStart ∧ b[5]? = some tlsHandshakeTypeClientHello then
      { s with isTLS := true }
    else s
  else s

/-- One buffer of `XtlsFilterTls`, and whether the loop goes on. -/
def filterBuffer (memory : Nat → UInt8) (s : TrafficState) (b : Bytes) : TrafficState × Bool :=
  let s := { s with numberOfPacketToFilter := s.numberOfPacketToFilter - 1 }.filterHello memory b
  if 0 < s.remainingServerHello then
    let upTo := min s.remainingServerHello (b.length : Int)
    let s := { s with remainingServerHello := s.remainingServerHello - b.length }
    if contains (b.take upTo.toNat) tls13SupportedVersions then
      ({ s with
        enableXtls := s.enableXtls || (tls13CipherSuiteDic s.cipher).any
          (· ≠ ascii "TLS_AES_128_CCM_8_SHA256")
        numberOfPacketToFilter := 0 }, false)
    else if s.remainingServerHello ≤ 0 then ({ s with numberOfPacketToFilter := 0 }, false)
    else (s, true)
  else (s, true)

/-- `XtlsFilterTls`. -/
def xtlsFilterTls (memory : Nat → UInt8) : TrafficState → List Bytes → TrafficState
  | s, [] => s
  | s, b :: buffer =>
      match s.filterBuffer memory b with
      | (s, true) => xtlsFilterTls memory s buffer
      | (s, false) => s

end TrafficState

structure VisionReader where
  reader : List (List Bytes)
  trafficState : TrafficState
  isUplink : Bool
  conn : List (List Bytes)
  input : Bytes := []
  rawInput : Bytes := []

/-- What `ReadFrom` makes of the bytes of a reader. -/
def readFrom (bytes : Bytes) : List Bytes :=
  (Crypto.newBuffers bytes.length bytes : Buf.MultiBuffer Unit).map Buf.Buffer.bytes

/-- How the reader goes on after a block, or inside one. -/
def LinkState.switch (s : LinkState) : LinkState :=
  if 0 < s.remainingContent ∨ 0 < s.remainingPadding ∨ s.currentCommand = 0 then
    { s with withinPaddingBuffers := true }
  else if s.currentCommand = 1 then { s with withinPaddingBuffers := false }
  else if s.currentCommand = 2 then { s with withinPaddingBuffers := false, directCopy := true }
  else s

namespace VisionReader

def link (w : VisionReader) : LinkState := w.trafficState.link w.isUplink

/-- The part of `ReadMultiBuffer` that unpads a multi-buffer. -/
def unpadding (w : VisionReader) (buffer : List Bytes) : List Bytes × VisionReader :=
  if w.link.withinPaddingBuffers ∨ 0 < w.trafficState.numberOfPacketToFilter then
    let (newbuffers, link) := unpadBuffers w.trafficState.userUUID w.link buffer
    (newbuffers.filter (· ≠ []),
      { w with trafficState := w.trafficState.setLink w.isUplink link.switch })
  else (buffer, w)

/-- The part that recognises TLS. -/
def filter (memory : Nat → UInt8) (w : VisionReader) (buffer : List Bytes) : VisionReader :=
  if 0 < w.trafficState.numberOfPacketToFilter then
    { w with trafficState := w.trafficState.xtlsFilterTls memory buffer }
  else w

/-- The part that goes over to the raw connection. -/
def direct (w : VisionReader) (buffer : List Bytes) : List Bytes × VisionReader :=
  if w.link.directCopy then
    (buffer ++ readFrom w.input ++ readFrom w.rawInput,
      { w with reader := w.conn, input := [], rawInput := [] })
  else (buffer, w)

def readMultiBuffer (memory : Nat → UInt8) (w : VisionReader) :
    Except Error (List Bytes) × VisionReader :=
  match w.reader with
  | [] => (.error .eof, w)
  | buffer :: reader =>
      let w := { w with reader }
      if buffer.all (· = []) ∨ w.link.directCopy then (.ok buffer, w)
      else
        let (buffer, w) := w.unpadding buffer
        let (buffer, w) := (w.filter memory buffer).direct buffer
        (.ok buffer, w)

/-- The bytes that some calls of `ReadMultiBuffer` return, and the reader after them. -/
def readTimes (memory : Nat → UInt8) : Nat → VisionReader → Bytes × VisionReader
  | 0, w => ([], w)
  | n + 1, w =>
      let (bytes, w) := readTimes memory n w
      let (buffer, w) := w.readMultiBuffer memory
      (bytes ++ (buffer.toOption.getD []).flatten, w)

end VisionReader

end V2RootCore.Vision
