import V2RootCore.Kcp.Clock

/-!
# The loss accounting of a sending window

A window under any calls of `Push`, `Flush`, `Remove` and `Clear`, at any clock values. Payloads carry a history
variable no call reads, the number of their transmissions.
-/

namespace V2RootCore.Kcp

structure Tallied (β : Type) where
  payload : β
  times : Nat := 0
  deriving DecidableEq

namespace LossWindow

variable {β : Type}

def write (heading : Heading) (seg : DataSegment (Tallied β)) : DataSegment (Tallied β) :=
  { seg with
    conv := heading.conv
    option := heading.option
    sendingNext := heading.sendingNext
    payload := { seg.payload with times := seg.payload.times + 1 } }

inductive Call (β : Type) where
  | push (number : UInt32) (b : β)
  | flush (heading : Heading) (current rto maxInFlightSize : UInt32)
  | remove (number : UInt32)
  | clear (una : UInt32)

def apply (window : SendingWindow (Tallied β)) : Call β → SendingWindow (Tallied β)
  | .push number b => window.push number ⟨b, 0⟩
  | .flush heading current rto maxInFlightSize => (window.flush (write heading) current rto maxInFlightSize).1
  | .remove number => (window.remove number).1
  | .clear una => window.clear una

/-- The segments a call acknowledges. -/
def acknowledged (window : SendingWindow (Tallied β)) : Call β → List (DataSegment (Tallied β))
  | .remove number => ((SendingWindow.removeFrom number window.cache).map Prod.fst).toList
  | .clear una => window.cache.takeWhile fun seg => !decide (seg.number ≥ una)
  | _ => []

/-- A segment that was not transmitted is never acknowledged: such a call does not occur. -/
def step (window : SendingWindow (Tallied β)) (call : Call β) : SendingWindow (Tallied β) :=
  if ∀ seg ∈ acknowledged window call, 0 < seg.payload.times then apply window call else window

/-- What a call passes to `onPacketLoss`. -/
def lossRate (window : SendingWindow (Tallied β)) : Call β → Option UInt32
  | .flush heading current rto maxInFlightSize => (window.flush (write heading) current rto maxInFlightSize).2.2
  | _ => none

/-- The number of cached segments that have been transmitted. -/
def transmitted (segs : List (DataSegment (Tallied β))) : Nat := segs.countP fun seg => 0 < seg.payload.times

end LossWindow

end V2RootCore.Kcp
