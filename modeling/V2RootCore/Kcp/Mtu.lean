import V2RootCore.Conf.Kcp
import V2RootCore.Kcp.Connection
import V2RootCore.Kcp.Packet
import V2RootCore.Transition

/-!
# The packets of one connection

A connection as `NewConnection` makes it from its settings, under any calls of the application, any segments of
the peer and any flushes. Every segment goes out in a packet of its own.
-/

namespace V2RootCore.Kcp

open Go Conf

/-- `PacketHeader.Size` of the headers whose size is fixed. -/
def headerKindSize : KcpHeader → Option Nat
  | .none => some 0
  | .srtp => some 4
  | .utp => some 4
  | .wechatVideo => some 13
  | .dtls => some (1 + 2 + 2 + 6 + 2)
  | .wireguard => some 4
  | .dns _ => Option.none

/-- `GetPackerHeader`, as the size of the header. -/
def headerSize (settings : KcpSettings) : Option Nat :=
  match settings.headerConfig with
  | Option.none => some 0
  | some header => headerKindSize header

structure AesGcm extends Aead where
  nonceSize_eq : nonceSize = 12
  overhead_eq : overhead = 16

/-- `GetSecurity`, with `NewAEADAESGCMBasedOnSeed`. -/
def getSecurity (newAesGcm : String → AesGcm) (settings : KcpSettings) : Security :=
  match settings.seed with
  | some seed => .aead (newAesGcm seed).toAead
  | Option.none => .simple

def dataSegmentOverhead : UInt32 := 18

/-- The payload limit of `NewConnection`. -/
def mss (settings : KcpSettings) (header : Option Bytes) (security : Security) : UInt32 :=
  settings.getMTUValue - UInt32.ofNat (KCPPacketWriter.overhead header (some security)) - dataSegmentOverhead

namespace Connection

inductive Event where
  | write (reader : Bytes)
  | input (current : UInt32) (seg : Segment Bytes)
  | flushSending (current : UInt32)
  | flushReceiving (current : UInt32)
  | ping (cmd : Command)
  | setState (state : State)
  | readMultiBuffer

/-- One round of the loop of `writeMultiBufferInternal`, with what its reader still has. A chunk that the worker
does not take is offered again in a later round. -/
def writeRound (limit : UInt32) (c : Connection Bytes) (reader : Bytes) : Connection Bytes :=
  if c.state ≠ .active ∨ reader = [] then c
  else
    let b := reader.take (min limit.toNat arraySize)
    { c with sendingWorker := (c.sendingWorker.push b).1 }

def step (limit : UInt32) (c : Connection Bytes) : Event → Connection Bytes
  | .write reader => c.writeRound limit reader
  | .input current seg => c.input current seg
  | .flushSending current => (c.flushSending current).1
  | .flushReceiving current => (c.flushReceiving current).1
  | .ping _ => c
  | .setState state => c.setState state
  | .readMultiBuffer => { c with receivingWorker := c.receivingWorker.readMultiBuffer.1 }

/-- The segments an event hands to the writer. -/
def emitted (c : Connection Bytes) : Event → List (Segment Bytes)
  | .flushSending current => (c.flushSending current).2
  | .flushReceiving current => (c.flushReceiving current).2
  | .ping cmd => [.cmdOnly (c.ping cmd)]
  | _ => []

end Connection

end V2RootCore.Kcp
