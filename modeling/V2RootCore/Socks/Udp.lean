import V2RootCore.Net.Address
import V2RootCore.Buf.RawBuffer

/-!
# UDP packets of SOCKS 5

A packet has two reserved bytes, the fragment number, the address and port of the other side and the
payload. It is put together in a buffer from the pool.
-/

namespace V2RootCore.Socks

open Go Buf Net

/-- `addrParser`. -/
def addrParser : AddressParser :=
  { families := [(0x01, .ipv4), (0x04, .ipv6), (0x03, .domain)] }

/-- What the packets take from a `RequestHeader`. -/
structure UdpRequest where
  address : Option Address
  port : UInt16
  deriving DecidableEq

/-- `EncodeUDPPacket`. -/
def encodeUDPPacket (request : UdpRequest) (data : Bytes) : Except Error RawBuffer := do
  let b ← RawBuffer.new.mustWrite [0, 0, 0]
  let header ← addrParser.writeAddressPort request.address request.port
  let b ← b.writeAll header
  b.mustWrite data

/-- `DecodeUDPPacket` on the content of the packet: the request, and what is left in the buffer. -/
def decodeUDPPacket (packet : Bytes) : Except Error (UdpRequest × Bytes) :=
  if packet.length < 5 then .error (.new (ascii "insufficient length of packet."))
  else if packet.getD 2 0 ≠ 0 then .error (.new (ascii "discarding fragmented payload."))
  else
    match addrParser.readAddressPort (packet.drop 3) with
    | .ok ((address, port), payload) => .ok ({ address := some address, port }, payload)
    | .error .panicked => .error .panicked
    | .error err => .error (.base (ascii "failed to read UDP header") err)

/-- The bytes of an encoded packet. -/
def packetOf (request : UdpRequest) (data : Bytes) : Except Error Bytes := do
  let b ← encodeUDPPacket request data
  b.bytes

/-- The request `WriteMultiBuffer` uses for a buffer. -/
def requestOf (request : UdpRequest) (b : Buffer Destination) : UdpRequest :=
  match b.udp with
  | some udp => { address := udp.address, port := udp.port }
  | none => request

/-- One round of the loop of `WriteMultiBuffer`: what was given to the writer, and how it ended. The rounds
after it are `rest`. -/
def writeRound (packet : Except Error Bytes) (outcome : Option Error)
    (rest : List Bytes × Except Error Unit) : List Bytes × Except Error Unit :=
  match packet, outcome with
  | .error err, _ => ([], .error err)
  | .ok packet, some err => ([packet], .error err)
  | .ok packet, none => (packet :: rest.1, rest.2)

/-- `UDPWriter.WriteMultiBuffer`. The writer answers the `i`-th packet with `outcome i`. -/
def writeMultiBuffer (request : UdpRequest) (outcome : Nat → Option Error) :
    MultiBuffer Destination → List Bytes × Except Error Unit
  | [] => ([], .ok ())
  | b :: mb =>
      writeRound (packetOf (requestOf request b) b.bytes) (outcome 0)
        (writeMultiBuffer request (fun i => outcome (i + 1)) mb)

end V2RootCore.Socks
