import Mathlib.Data.List.AList
import V2RootCore.Kcp.Segment
import V2RootCore.Kcp.Config

/-!
# The receiving side

`ReceivingWindow`, `AckList` and `ReceivingWorker` of `receiving.go`. The window's map is an
association list with distinct keys. The three parallel slices of `AckList` only ever change in
lockstep, so they are one list of items.
-/

namespace V2RootCore.Kcp

variable {β : Type}

/-- `map[uint32]*DataSegment`. -/
structure ReceivingWindow (β : Type) where
  cache : AList fun _ : UInt32 => DataSegment β := ∅

namespace ReceivingWindow

def set (window : ReceivingWindow β) (id : UInt32) (value : DataSegment β) :
    ReceivingWindow β × Bool :=
  match window.cache.lookup id with
  | some _ => (window, false)
  | none => ({ window with cache := window.cache.insert id value }, true)

def remove (window : ReceivingWindow β) (id : UInt32) :
    ReceivingWindow β × Option (DataSegment β) :=
  match window.cache.lookup id with
  | none => (window, none)
  | some value => ({ window with cache := window.cache.erase id }, some value)

end ReceivingWindow

/-- One position of the slices `numbers`, `timestamps` and `nextFlush`. -/
structure AckItem where
  number : UInt32
  timestamp : UInt32
  nextFlush : UInt32
  deriving DecidableEq

structure AckList where
  items : List AckItem := []
  dirty : Bool := false
  deriving DecidableEq

namespace AckList

def add (acks : AckList) (number timestamp : UInt32) : AckList :=
  { items := acks.items ++ [{ number, timestamp, nextFlush := 0 }]
    dirty := true }

def clear (acks : AckList) (una : UInt32) : AckList :=
  let items := acks.items.filter fun item => !decide (item.number < una)
  if items.length < acks.items.length then { items, dirty := true } else acks

/-- The variables of `Flush`'s loop: the items passed so far with their new `nextFlush`, the segment
being filled, the scratch slice `flushCandidates`, the segments written and `dirty`. -/
structure FlushState where
  items : List AckItem := []
  seg : AckSegment := {}
  candidates : List UInt32 := []
  written : List AckSegment := []
  dirty : Bool

/-- The capacity `NewAckList` gives `flushCandidates`, which never grows. -/
def flushCandidatesCap : Nat := 128

/-- One iteration of `Flush`'s loop. -/
def flushItem (current rto : UInt32) (acc : FlushState) (item : AckItem) : FlushState :=
  if item.nextFlush > current then
    { acc with
      items := acc.items ++ [item]
      candidates :=
        if acc.candidates.length < flushCandidatesCap then acc.candidates ++ [item.number]
        else acc.candidates }
  else
    let seg := (acc.seg.putNumber item.number).putTimestamp item.timestamp
    let timeout := if rto / 2 < 20 then 20 else rto / 2
    let items := acc.items ++ [{ item with nextFlush := current + timeout }]
    if seg.isFull then
      { acc with items, seg := {}, written := acc.written ++ [seg], dirty := false }
    else { acc with items, seg }

/-- Top up a segment with candidates until it is full. -/
def fillCandidates (seg : AckSegment) : List UInt32 → AckSegment
  | [] => seg
  | number :: rest => if seg.isFull then seg else fillCandidates (seg.putNumber number) rest

/-- The list after a flush and the segments it hands to the writer. -/
def flush (acks : AckList) (current rto : UInt32) : AckList × List AckSegment :=
  let acc := acks.items.foldl (flushItem current rto) { dirty := acks.dirty }
  if acc.dirty || !acc.seg.isEmpty then
    ({ items := acc.items, dirty := false },
      acc.written ++ [fillCandidates acc.seg acc.candidates])
  else ({ items := acc.items, dirty := acc.dirty }, acc.written)

end AckList

structure ReceivingWorker (β : Type) where
  leftOver : Option (List β) := none
  window : ReceivingWindow β := {}
  acklist : AckList := {}
  nextNumber : UInt32 := 0
  windowSize : UInt32

namespace ReceivingWorker

def new (config : Config) : ReceivingWorker β :=
  { windowSize := config.getReceivingInFlightSize }

def processSendingNext (w : ReceivingWorker β) (number : UInt32) : ReceivingWorker β :=
  { w with acklist := w.acklist.clear number }

def processSegment (w : ReceivingWorker β) (seg : DataSegment β) : ReceivingWorker β :=
  let number := seg.number
  let idx := number - w.nextNumber
  if idx ≥ w.windowSize then w
  else
    { w with
      acklist := (w.acklist.clear seg.sendingNext).add number seg.timestamp
      window := (w.window.set seg.number seg).1 }

/-- The loop of `ReadMultiBuffer`. Every round takes an entry out of the cache, so as many rounds as
the cache has entries reach the `break`. -/
def readLoop : Nat → ReceivingWorker β → List β → ReceivingWorker β × List β
  | 0, w, mb => (w, mb)
  | fuel + 1, w, mb =>
      match w.window.remove w.nextNumber with
      | (_, none) => (w, mb)
      | (window, some seg) =>
          readLoop fuel { w with window, nextNumber := w.nextNumber + 1 }
            (mb ++ [seg.payload])

def readMultiBuffer (w : ReceivingWorker β) : ReceivingWorker β × List β :=
  match w.leftOver with
  | some mb => ({ w with leftOver := none }, mb)
  | none => readLoop w.window.cache.entries.length w []

/-- The fields `Write` sets on an acknowledgement before it goes to the output. -/
def write (w : ReceivingWorker β) (conv : UInt16) (option : SegmentOption) (seg : AckSegment) :
    AckSegment :=
  { seg with
    conv := conv
    receivingNext := w.nextNumber
    receivingWindow := w.nextNumber + w.windowSize
    option := option }

def flush (w : ReceivingWorker β) (conv : UInt16) (option : SegmentOption)
    (current rto : UInt32) : ReceivingWorker β × List AckSegment :=
  let (acklist, written) := w.acklist.flush current rto
  ({ w with acklist }, written.map (w.write conv option))

end ReceivingWorker

end V2RootCore.Kcp
