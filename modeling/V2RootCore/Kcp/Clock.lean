import V2RootCore.Kcp.Sending
import V2RootCore.Transition

/-!
# A sending window and its clock

A window under any calls, with the clock of `Connection.Elapsed`: the milliseconds since the connection began,
cut to 32 bits. Payloads carry history variables no call reads, the number of the call that pushed them and the
time and timeout of their last transmission.
-/

namespace V2RootCore.Kcp

/-- A retransmission timeout in milliseconds. -/
structure Rto where
  value : UInt32
  one_le : 1 ≤ value
  le : value ≤ 12500

structure Transmission where
  time : Nat
  rto : UInt32
  deriving DecidableEq

structure Tracked (β : Type) where
  payload : β
  identity : Nat
  last : Option Transmission := none
  deriving DecidableEq

/-- What the worker's `Write` sets on every segment. -/
structure Heading where
  conv : UInt16 := 0
  option : SegmentOption := 0
  sendingNext : UInt32 := 0

structure TimedWindow (β : Type) where
  window : SendingWindow (Tracked β) := {}
  elapsed : Nat := 0
  pushed : Nat := 0
  fastAcked : Bool := false

namespace TimedWindow

variable {β : Type}

def current (st : TimedWindow β) : UInt32 := UInt32.ofNat st.elapsed

def write (st : TimedWindow β) (heading : Heading) (rto : Rto) (seg : DataSegment (Tracked β)) :
    DataSegment (Tracked β) :=
  { seg with
    conv := heading.conv
    option := heading.option
    sendingNext := heading.sendingNext
    payload := { seg.payload with last := some ⟨st.elapsed, rto.value⟩ } }

def flush (st : TimedWindow β) (heading : Heading) (rto : Rto) (maxInFlightSize : UInt32) :
    SendingWindow (Tracked β) × List (DataSegment (Tracked β)) × Option UInt32 :=
  st.window.flush (st.write heading rto) st.current rto.value maxInFlightSize

inductive Event (β : Type) where
  | advance (milliseconds : Nat)
  | push (number : UInt32) (b : β)
  | flush (heading : Heading) (rto : Rto) (maxInFlightSize : UInt32)
  | handleFastAck (number : UInt32) (rto : Rto)
  | remove (number : UInt32)
  | clear (una : UInt32)

def step (st : TimedWindow β) : Event β → TimedWindow β
  | .advance milliseconds => { st with elapsed := st.elapsed + milliseconds }
  | .push number b =>
      { st with window := st.window.push number ⟨b, st.pushed, none⟩, pushed := st.pushed + 1 }
  | .flush heading rto maxInFlightSize =>
      { st with window := (st.flush heading rto maxInFlightSize).1 }
  | .handleFastAck number rto =>
      { st with window := st.window.handleFastAck number rto.value, fastAcked := true }
  | .remove number => { st with window := (st.window.remove number).1 }
  | .clear una => { st with window := st.window.clear una }

end TimedWindow

end V2RootCore.Kcp
