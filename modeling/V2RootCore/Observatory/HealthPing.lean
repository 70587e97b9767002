import V2RootCore.Go.Slices

/-!
# Health statistics of an outbound

`healthping_result.go`. Times and durations are in nanoseconds. The clock stands still during a call, and the
difference of two of its readings is a duration. The standard deviation is left out.
-/

namespace V2RootCore.Observatory

open Go

def rttFailed : Int := 2 ^ 63 - 1

/-- The zero time, the first day of the year 1. -/
def zeroTime : Int := -62135596800000000000

structure PingRTT where
  time : Int := zeroTime
  value : Int := 0
  deriving DecidableEq

structure HealthPingStats where
  all : Nat
  fail : Nat
  average : Int
  max : Int
  min : Int
  deriving DecidableEq

/-- The slice `rtts` is empty while it is nil. -/
structure HealthPingRTTS where
  idx : Int := 0
  cap : Nat
  validity : Int
  rtts : List PingRTT := []
  lastUpdateAt : Int := zeroTime
  stats : Option HealthPingStats := none

/-- The accumulators of the loop of `getStatistics`. -/
structure Tally where
  fail : Nat := 0
  max : Int := 0
  min : Int := rttFailed
  sum : Int := 0
  cnt : Nat := 0

def Tally.add (now validity : Int) (t : Tally) (rtt : PingRTT) : Tally :=
  if rtt.value = 0 ∨ now - rtt.time > validity then t
  else if rtt.value = rttFailed then { t with fail := t.fail + 1 }
  else
    { fail := t.fail
      max := if t.max < rtt.value then rtt.value else t.max
      min := if t.min > rtt.value then rtt.value else t.min
      sum := int64 (t.sum + rtt.value)
      cnt := t.cnt + 1 }

def Tally.stats (t : Tally) : HealthPingStats :=
  if t.cnt = 0 then { all := t.cnt + t.fail, fail := t.fail, average := 0, max := t.max, min := 0 }
  else { all := t.cnt + t.fail, fail := t.fail, average := t.sum.tdiv t.cnt, max := t.max, min := t.min }

namespace HealthPingRTTS

def getStatistics (h : HealthPingRTTS) (now : Int) : HealthPingStats :=
  (h.rtts.foldl (Tally.add now h.validity) {}).stats

def get (h : HealthPingRTTS) (now : Int) : HealthPingStats := h.getStatistics now

def calcIndex (h : HealthPingRTTS) (step : Nat) : Int :=
  if h.idx + step ≥ h.cap then (h.idx + step) % h.cap else h.idx + step

def outdated (h : HealthPingRTTS) (now : Int) (idx : Int) : Bool :=
  h.rtts[idx.toNat]?.any fun rtt => h.lastUpdateAt > rtt.time + h.validity || rtt.time + h.validity < now

/-- An index, or none for -1. -/
def findOutdated (h : HealthPingRTTS) (now : Int) : Option Int :=
  ((List.range' (h.cap - 1) (h.cap + 1)).map h.calcIndex).find? (h.outdated now)

def getWithCache (h : HealthPingRTTS) (now : Int) : Except Error (HealthPingRTTS × HealthPingStats) :=
  match h.rtts[h.idx.toNat]? with
  | none => .error .panicked
  | some last =>
      match h.stats with
      | some stats =>
          if h.lastUpdateAt < last.time ∨ (h.findOutdated now).isSome then
            .ok ({ h with stats := some (h.getStatistics now), lastUpdateAt := now }, h.getStatistics now)
          else .ok (h, stats)
      | none => .ok ({ h with stats := some (h.getStatistics now), lastUpdateAt := now }, h.getStatistics now)

/-- The slots that the first `Put` makes. -/
def allocated (h : HealthPingRTTS) : HealthPingRTTS :=
  if h.rtts = [] then { h with rtts := List.replicate h.cap {}, idx := -1 } else h

def put (h : HealthPingRTTS) (now d : Int) : HealthPingRTTS :=
  let idx := h.allocated.calcIndex 1
  { h.allocated with idx, rtts := h.allocated.rtts.set idx.toNat { time := now, value := d } }

end HealthPingRTTS

inductive Event where
  | put (d : Int)
  | get
  | getWithCache
  | advance (duration : Nat)

/-- The results with the clock and the pings that were put, the last one first. -/
structure State where
  results : HealthPingRTTS
  now : Int
  pings : List PingRTT := []

def State.step (st : State) : Event → State
  | .put d => { st with results := st.results.put st.now d, pings := { time := st.now, value := d } :: st.pings }
  | .get => st
  | .getWithCache =>
      match st.results.getWithCache st.now with
      | .ok (results, _) => { st with results }
      | .error _ => st
  | .advance duration => { st with now := st.now + duration }

end V2RootCore.Observatory
