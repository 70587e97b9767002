import V2RootCore.Kcp.Segment
import V2RootCore.Kcp.Config

/-!
# The sending side

`SendingWindow` and `SendingWorker` of `sending.go`. The window's linked list is a list, front
first; what a function hands to its `SegmentWriter` is returned as a list, in order of writing.

The comparisons are the source's own. `clear` and `remove` compare numbers as plain `uint32`s, while
`processAck` and `handleFastAck` compare them modulo `2^32`.
-/

namespace V2RootCore.Kcp

variable {β : Type}

structure SendingWindow (β : Type) where
  cache : List (DataSegment β) := []
  totalInFlightSize : UInt32 := 0
  deriving DecidableEq

namespace SendingWindow

def isEmpty (window : SendingWindow β) : Bool := window.cache.length == 0

def len (window : SendingWindow β) : UInt32 := UInt32.ofNat window.cache.length

def push (window : SendingWindow β) (number : UInt32) (b : β) : SendingWindow β :=
  { window with cache := window.cache ++ [{ number, payload := b }] }

/-- Drop segments from the front until one is numbered `una` or above. -/
def clear (window : SendingWindow β) (una : UInt32) : SendingWindow β :=
  { window with cache := window.cache.dropWhile fun seg => !decide (seg.number ≥ una) }

/-- Walk the list from the front with a visitor that may change each segment, and an accumulator for
the variables it closes over, until the visitor returns `false`. -/
def visit {σ : Type} (visitor : σ → DataSegment β → σ × DataSegment β × Bool) :
    σ → List (DataSegment β) → σ × List (DataSegment β)
  | acc, [] => (acc, [])
  | acc, seg :: rest =>
      match visitor acc seg with
      | (acc, seg, false) => (acc, seg :: rest)
      | (acc, seg, true) =>
          let (acc, rest) := visit visitor acc rest
          (acc, seg :: rest)

def handleFastAckSegment (number rto : UInt32) (_acc : Unit) (seg : DataSegment β) :
    Unit × DataSegment β × Bool :=
  if number = seg.number ∨ number - seg.number > 0x7FFFFFFF then ((), seg, false)
  else if seg.transmit > 0 ∧ seg.timeout > rto / 3 then
    ((), { seg with timeout := seg.timeout - rto / 3 }, true)
  else ((), seg, true)

def handleFastAck (window : SendingWindow β) (number rto : UInt32) : SendingWindow β :=
  { window with cache := (visit (handleFastAckSegment number rto) () window.cache).2 }

/-- The variables `Flush` shares with its visitor, and what it has written so far. -/
structure FlushState (β : Type) where
  totalInFlightSize : UInt32
  lost : UInt32 := 0
  inFlightSize : UInt32 := 0
  written : List (DataSegment β) := []

/-- `write` fills in the fields the worker sets on a segment before it goes out; the list keeps the
segment with these fields. -/
def flushSegment (write : DataSegment β → DataSegment β) (current rto maxInFlightSize : UInt32)
    (acc : FlushState β) (seg : DataSegment β) : FlushState β × DataSegment β × Bool :=
  if current - seg.timeout ≥ 0x7FFFFFFF then (acc, seg, true)
  else
    let first := seg.transmit == 0
    let sent := write { seg with
      timeout := current + rto
      timestamp := current
      transmit := seg.transmit + 1 }
    let inFlightSize := acc.inFlightSize + 1
    ({ totalInFlightSize :=
          if first then acc.totalInFlightSize + 1 else acc.totalInFlightSize
       lost := if first then acc.lost else acc.lost + 1
       inFlightSize := inFlightSize
       written := acc.written ++ [sent] },
      sent, inFlightSize < maxInFlightSize)

/-- The window afterwards, the segments written, and the loss rate reported to `onPacketLoss`. -/
def flush (window : SendingWindow β) (write : DataSegment β → DataSegment β)
    (current rto maxInFlightSize : UInt32) :
    SendingWindow β × List (DataSegment β) × Option UInt32 :=
  if window.isEmpty then (window, [], none)
  else
    let (acc, cache) := visit (flushSegment write current rto maxInFlightSize)
      { totalInFlightSize := window.totalInFlightSize } window.cache
    let rate :=
      if acc.inFlightSize > 0 ∧ acc.totalInFlightSize ≠ 0 then
        some (acc.lost * 100 / acc.totalInFlightSize)
      else none
    ({ cache, totalInFlightSize := acc.totalInFlightSize }, acc.written, rate)

/-- The list without the first segment numbered `number`, unless a larger number comes before it.
The removed segment is returned as well. -/
def removeFrom (number : UInt32) :
    List (DataSegment β) → Option (DataSegment β × List (DataSegment β))
  | [] => none
  | seg :: rest =>
      if seg.number > number then none
      else if seg.number = number then some (seg, rest)
      else (removeFrom number rest).map fun (removed, rest) => (removed, seg :: rest)

def remove (window : SendingWindow β) (number : UInt32) : SendingWindow β × Bool :=
  match removeFrom number window.cache with
  | none => (window, false)
  | some (_, cache) =>
      ({ cache := cache
         totalInFlightSize :=
           if window.totalInFlightSize > 0 then window.totalInFlightSize - 1
           else window.totalInFlightSize }, true)

end SendingWindow

structure SendingWorker (β : Type) where
  window : SendingWindow β := {}
  firstUnacknowledged : UInt32 := 0
  nextNumber : UInt32 := 0
  remoteNextNumber : UInt32 := 32
  controlWindow : UInt32
  fastResend : UInt32 := 2
  windowSize : UInt32
  firstUnacknowledgedUpdated : Bool := false
  closed : Bool := false
  deriving DecidableEq

namespace SendingWorker

def new (config : Config) : SendingWorker β :=
  { controlWindow := config.getSendingInFlightSize
    windowSize := config.getSendingBufferSize }

def findFirstUnacknowledged (w : SendingWorker β) : SendingWorker β :=
  let first := w.firstUnacknowledged
  let found := (w.window.cache.head?.map DataSegment.number).getD w.nextNumber
  { w with
    firstUnacknowledged := found
    firstUnacknowledgedUpdated := w.firstUnacknowledgedUpdated || first != found }

/-- `ProcessReceivingNext` and `ProcessReceivingNextWithoutLock`, which differ in the lock only. -/
def processReceivingNext (w : SendingWorker β) (nextNumber : UInt32) : SendingWorker β :=
  findFirstUnacknowledged { w with window := w.window.clear nextNumber }

/-- `processAck` drops a number outside `[firstUnacknowledged, nextNumber)`. -/
def ackInRange (w : SendingWorker β) (number : UInt32) : Bool :=
  !(number - w.firstUnacknowledged > 0x7FFFFFFF || number - w.nextNumber < 0x7FFFFFFF)

def processAck (w : SendingWorker β) (number : UInt32) : SendingWorker β × Bool :=
  if w.ackInRange number then
    match w.window.remove number with
    | (window, true) => (findFirstUnacknowledged { w with window }, true)
    | (window, false) => ({ w with window }, false)
  else (w, false)

/-- The loop over an acknowledgement's numbers, with its `maxack` and `maxackRemoved`. -/
def processAcks (w : SendingWorker β) (maxack : UInt32) (maxackRemoved : Bool) :
    List UInt32 → SendingWorker β × UInt32 × Bool
  | [] => (w, maxack, maxackRemoved)
  | ack :: rest =>
      let (w, removed) := w.processAck ack
      if maxack < ack then processAcks w ack removed rest
      else processAcks w maxack maxackRemoved rest

/-- The worker after an acknowledgement, and the round-trip sample it yields. -/
def processSegment (w : SendingWorker β) (current : UInt32) (seg : AckSegment) (rto : UInt32) :
    SendingWorker β × Option UInt32 :=
  if w.closed then (w, none)
  else
    let w := if w.remoteNextNumber < seg.receivingWindow then
        { w with remoteNextNumber := seg.receivingWindow } else w
    let w := w.processReceivingNext seg.receivingNext
    if seg.isEmpty then (w, none)
    else
      let (w, maxack, maxackRemoved) := w.processAcks 0 false seg.numberList
      if maxackRemoved then
        ({ w with window := w.window.handleFastAck maxack rto },
          if current - seg.timestamp < 10000 then some (current - seg.timestamp) else none)
      else (w, none)

def push (w : SendingWorker β) (b : β) : SendingWorker β × Bool :=
  if w.closed then (w, false)
  else if w.window.len > w.windowSize then (w, false)
  else
    ({ w with window := w.window.push w.nextNumber b, nextNumber := w.nextNumber + 1 }, true)

/-- The fields `Write` sets on a data segment before it goes to the output. -/
def write (w : SendingWorker β) (conv : UInt16) (option : SegmentOption) (seg : DataSegment β) :
    DataSegment β :=
  { seg with conv, sendingNext := w.firstUnacknowledged, option }

def onPacketLoss (w : SendingWorker β) (config : Config) (rto : UInt32) (lossRate : UInt32) :
    SendingWorker β :=
  if !config.congestion || rto == 0 then w
  else
    let controlWindow :=
      if lossRate ≥ 15 then 3 * w.controlWindow / 4
      else if lossRate ≤ 5 then w.controlWindow + w.controlWindow / 4
      else w.controlWindow
    let controlWindow := if controlWindow < 16 then 16 else controlWindow
    let controlWindow :=
      if controlWindow > 2 * config.getSendingInFlightSize then 2 * config.getSendingInFlightSize
      else controlWindow
    { w with controlWindow }

/-- The number of segments one flush may write. -/
def congestionWindow (w : SendingWorker β) (config : Config) : UInt32 :=
  let cwnd := config.getSendingInFlightSize
  let cwnd := if cwnd > w.remoteNextNumber - w.firstUnacknowledged then
    w.remoteNextNumber - w.firstUnacknowledged else cwnd
  let cwnd := if config.congestion && cwnd > w.controlWindow then w.controlWindow else cwnd
  cwnd * 20

/-- The worker after a flush, the segments written, and whether a ping is due. -/
def flush (w : SendingWorker β) (conv : UInt16) (option : SegmentOption) (config : Config)
    (current rto : UInt32) : SendingWorker β × List (DataSegment β) × Bool :=
  if w.closed then (w, [], false)
  else if w.window.isEmpty then
    ({ w with firstUnacknowledgedUpdated := false }, [], w.firstUnacknowledgedUpdated)
  else
    let (window, written, rate) :=
      w.window.flush (w.write conv option) current rto (w.congestionWindow config)
    let w := { w with window, firstUnacknowledgedUpdated := false }
    (match rate with
      | some lossRate => w.onPacketLoss config rto lossRate
      | none => w, written, false)

def closeWrite (w : SendingWorker β) : SendingWorker β :=
  { w with window := w.window.clear 0xFFFFFFFF }

end SendingWorker

end V2RootCore.Kcp
