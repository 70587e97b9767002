import V2RootCore.Kcp.Sending
import V2RootCore.Kcp.Receiving

/-!
# A connection

The part of `connection.go` that ties the two workers of one end together: the dispatch of incoming
segments in `Input`, the state changes a segment can cause, pings, and the round-trip estimate.
-/

namespace V2RootCore.Kcp

variable {β : Type}

inductive State where
  | active
  | readyToClose
  | peerClosed
  | terminating
  | peerTerminating
  | terminated
  deriving DecidableEq, Repr

structure RoundTripInfo where
  variation : UInt32 := 0
  srtt : UInt32 := 0
  rto : UInt32
  minRtt : UInt32
  updatedTimestamp : UInt32 := 0
  deriving DecidableEq

namespace RoundTripInfo

def updatePeerRTO (info : RoundTripInfo) (rto current : UInt32) : RoundTripInfo :=
  if current - info.updatedTimestamp < 3000 then info
  else { info with updatedTimestamp := current, rto }

def update (info : RoundTripInfo) (rtt current : UInt32) : RoundTripInfo :=
  if rtt > 0x7FFFFFFF then info
  else
    let info :=
      if info.srtt = 0 then { info with srtt := rtt, variation := rtt / 2 }
      else
        let delta := if info.srtt > rtt then info.srtt - rtt else rtt - info.srtt
        let srtt := (7 * info.srtt + rtt) / 8
        { info with
          variation := (3 * info.variation + delta) / 4
          srtt := if srtt < info.minRtt then info.minRtt else srtt }
    let rto :=
      if info.minRtt < 4 * info.variation then info.srtt + 4 * info.variation
      else info.srtt + info.variation
    let rto := if rto > 10000 then 10000 else rto
    { info with rto := rto * 5 / 4, updatedTimestamp := current }

def timeout (info : RoundTripInfo) : UInt32 := info.rto

end RoundTripInfo

structure Connection (β : Type) where
  conversation : UInt16
  config : Config
  state : State := .active
  roundTrip : RoundTripInfo
  receivingWorker : ReceivingWorker β
  sendingWorker : SendingWorker β

namespace Connection

def new (conversation : UInt16) (config : Config) : Connection β :=
  { conversation := conversation
    config := config
    roundTrip := { rto := 100, minRtt := config.getTTIValue }
    receivingWorker := ReceivingWorker.new config
    sendingWorker := SendingWorker.new config }

/-- The option every segment of this end carries. -/
def outgoingOption (c : Connection β) : SegmentOption :=
  if c.state = .readyToClose then SegmentOptionClose else 0

/-- Entering a state the peer's end of the conversation imposes stops the sender. -/
def setState (c : Connection β) (state : State) : Connection β :=
  let c := { c with state }
  match state with
  | .active | .readyToClose => c
  | .peerClosed | .terminating | .peerTerminating | .terminated =>
      { c with sendingWorker := c.sendingWorker.closeWrite }

def onPeerClosed (c : Connection β) : Connection β :=
  match c.state with
  | .readyToClose => c.setState .terminating
  | .active => c.setState .peerClosed
  | _ => c

def handleOption (c : Connection β) (opt : SegmentOption) : Connection β :=
  if opt &&& SegmentOptionClose = SegmentOptionClose then c.onPeerClosed else c

/-- The state change a command segment causes. -/
def handleCommand (c : Connection β) (cmd : Command) : Connection β :=
  if cmd = CommandTerminate then
    match c.state with
    | .active | .peerClosed => c.setState .peerTerminating
    | .readyToClose => c.setState .terminating
    | .terminating => c.setState .terminated
    | _ => c
  else c

def input (c : Connection β) (current : UInt32) (seg : Segment β) : Connection β :=
  if seg.conversation ≠ c.conversation then c
  else
    let c := c.handleOption seg.option
    match seg with
    | .data seg => { c with receivingWorker := c.receivingWorker.processSegment seg }
    | .ack seg =>
        let (sendingWorker, sample) :=
          c.sendingWorker.processSegment current seg c.roundTrip.timeout
        { c with
          sendingWorker := sendingWorker
          roundTrip := match sample with
            | some rtt => c.roundTrip.update rtt current
            | none => c.roundTrip }
    | .cmdOnly seg =>
        let c := c.handleCommand seg.cmd
        { c with
          sendingWorker := c.sendingWorker.processReceivingNext seg.receivingNext
          receivingWorker := c.receivingWorker.processSendingNext seg.sendingNext
          roundTrip := c.roundTrip.updatePeerRTO seg.peerRTO current }

/-- The segment `Ping` writes. -/
def ping (c : Connection β) (cmd : Command) : CmdOnlySegment :=
  { conv := c.conversation
    cmd := cmd
    receivingNext := c.receivingWorker.nextNumber
    sendingNext := c.sendingWorker.firstUnacknowledged
    peerRTO := c.roundTrip.timeout
    option := c.outgoingOption }

/-- `SendingWorker.Flush`, with the ping it may send afterwards. -/
def flushSending (c : Connection β) (current : UInt32) : Connection β × List (Segment β) :=
  let (sendingWorker, written, updated) := c.sendingWorker.flush c.conversation c.outgoingOption
    c.config current c.roundTrip.timeout
  let c := { c with sendingWorker }
  (c, written.map .data ++ if updated then [.cmdOnly (c.ping CommandPing)] else [])

def flushReceiving (c : Connection β) (current : UInt32) : Connection β × List (Segment β) :=
  let (receivingWorker, written) := c.receivingWorker.flush c.conversation c.outgoingOption
    current c.roundTrip.timeout
  ({ c with receivingWorker }, written.map .ack)

end Connection

end V2RootCore.Kcp
