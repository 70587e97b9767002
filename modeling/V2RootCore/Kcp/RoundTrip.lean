import V2RootCore.Go.Io
import V2RootCore.Kcp.System

/-!
# The round-trip estimates of two peers

Each end estimates a retransmission timeout from its own samples, sends it along with every ping, and may take over
the one its peer sent. The numbers an estimate is made of are left open here: the code has them in 32 bits, and the
same formulas on natural numbers say what is meant.
-/

namespace V2RootCore.Kcp

open Go

/-- The round-trip estimate `NewConnection` begins with. The workers it makes divide by the MTU and by the number of
intervals in a second, and a division by zero is a panic. -/
def newRoundTrip (config : Config) : Except Error RoundTripInfo :=
  if config.getMTUValue = 0 ∨ config.getTTIValue = 0 ∨ 1000 / config.getTTIValue = 0 then .error .panicked
  else .ok { rto := 100, minRtt := config.getTTIValue }

/-- An estimate of type `ι` whose timeout is of type `ν`. -/
structure Estimator (ι ν : Type) where
  update : ι → (rtt current : UInt32) → ι
  updatePeerRTO : ι → ν → (current : UInt32) → ι
  timeout : ι → ν

/-- The estimates of both ends and the timeouts of all pings ever sent towards an end, latest first. -/
structure Peers (ι ν : Type) where
  info : Side → ι
  pings : Side → List ν := fun _ => []

/-- A `sample` is the end of `ProcessSegment` for an acknowledgement. A ping may be received at any time, any number
of times or never. -/
inductive RttEvent where
  | sample (side : Side) (current timestamp : UInt32)
  | ping (side : Side)
  | receive (side : Side) (position : Nat) (current : UInt32)

namespace Peers

variable {ι ν : Type} (e : Estimator ι ν)

def setInfo (st : Peers ι ν) (side : Side) (info : ι) : Peers ι ν :=
  { st with info := Function.update st.info side info }

def step (st : Peers ι ν) : RttEvent → Peers ι ν
  | .sample side current timestamp =>
      if current - timestamp < 10000 then
        st.setInfo side (e.update (st.info side) (current - timestamp) current)
      else st
  | .ping side =>
      { st with pings := Function.update st.pings side.peer (e.timeout (st.info side) :: st.pings side.peer) }
  | .receive side position current =>
      match (st.pings side)[position]? with
      | some rto => st.setInfo side (e.updatePeerRTO (st.info side) rto current)
      | none => st

/-- The same in other numbers. -/
def map {ι' ν' : Type} (f : ι → ι') (g : ν → ν') (st : Peers ι ν) : Peers ι' ν' :=
  { info := fun side => f (st.info side), pings := fun side => (st.pings side).map g }

end Peers

def roundTripEstimator : Estimator RoundTripInfo UInt32 where
  update := RoundTripInfo.update
  updatePeerRTO := RoundTripInfo.updatePeerRTO
  timeout := RoundTripInfo.timeout

/-- A round-trip estimate in natural numbers. Time stamps are those of the clock. -/
structure Estimate where
  variation : Nat
  srtt : Nat
  rto : Nat
  minRtt : Nat
  updatedTimestamp : UInt32

namespace Estimate

def updatePeerRTO (info : Estimate) (rto : Nat) (current : UInt32) : Estimate :=
  if current - info.updatedTimestamp < 3000 then info
  else { info with updatedTimestamp := current, rto }

/-- The smoothed time and its variation after a sample. -/
def smooth (info : Estimate) (rtt : Nat) : Estimate :=
  if info.srtt = 0 then { info with srtt := rtt, variation := rtt / 2 }
  else
    { info with
      variation := (3 * info.variation + (max info.srtt rtt - min info.srtt rtt)) / 4
      srtt := max info.minRtt ((7 * info.srtt + rtt) / 8) }

def update (info : Estimate) (rtt : Nat) (current : UInt32) : Estimate :=
  let info := info.smooth rtt
  let rto := info.srtt + if info.minRtt < 4 * info.variation then 4 * info.variation else info.variation
  { info with rto := min rto 10000 * 5 / 4, updatedTimestamp := current }

end Estimate

def exactEstimator : Estimator Estimate Nat where
  update := fun info rtt current => info.update rtt.toNat current
  updatePeerRTO := Estimate.updatePeerRTO
  timeout := Estimate.rto

/-- The numbers of an estimate. -/
def RoundTripInfo.exact (info : RoundTripInfo) : Estimate :=
  { variation := info.variation.toNat
    srtt := info.srtt.toNat
    rto := info.rto.toNat
    minRtt := info.minRtt.toNat
    updatedTimestamp := info.updatedTimestamp }

end V2RootCore.Kcp
