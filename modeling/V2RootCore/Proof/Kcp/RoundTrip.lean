import V2RootCore.Kcp.RoundTrip
import V2RootCore.Proof.Kcp.Genuine

/-!
# Retransmission timeouts stay bounded

An end may take over the timeout of its peer, so the bound on it is one on both ends and on all pings between
them. Within the bounds nothing the code computes goes beyond 32 bits, and both machines of estimates go in step.
-/

namespace V2RootCore.Kcp

open Go Transition

section Machines

variable {ι ν ι' ν' : Type}

/-- Two estimators that agree on estimates and timeouts with some property, which they keep. -/
structure Estimator.Agrees (e : Estimator ι ν) (e' : Estimator ι' ν') (f : ι → ι') (g : ν → ν')
    (I : ι → Prop) (J : ν → Prop) : Prop where
  update : ∀ info rtt current, I info → rtt < 10000 →
    I (e.update info rtt current) ∧ f (e.update info rtt current) = e'.update (f info) rtt current
  updatePeerRTO : ∀ info rto current, I info → J rto →
    I (e.updatePeerRTO info rto current) ∧
      f (e.updatePeerRTO info rto current) = e'.updatePeerRTO (f info) (g rto) current
  timeout : ∀ info, I info → J (e.timeout info) ∧ g (e.timeout info) = e'.timeout (f info)

/-- Both estimates and all pings have their property. -/
structure Peers.Within (I : ι → Prop) (J : ν → Prop) (st : Peers ι ν) : Prop where
  info : ∀ side, I (st.info side)
  pings : ∀ side, ∀ rto ∈ st.pings side, J rto

namespace Peers

variable {e : Estimator ι ν} {e' : Estimator ι' ν'} {f : ι → ι'} {g : ν → ν'} {I : ι → Prop} {J : ν → Prop}
  {st : Peers ι ν}

theorem Within.setInfo (h : st.Within I J) (side : Side) {info : ι} (hinfo : I info) :
    (st.setInfo side info).Within I J := by
  refine ⟨?_, h.pings⟩
  apply (Function.forall_update_iff st.info fun _ => I).mpr
  exact ⟨hinfo, fun other _ => h.info other⟩

theorem map_setInfo (side : Side) (info : ι) :
    (st.setInfo side info).map f g = (st.map f g).setInfo side (f info) := by
  unfold map setInfo
  congr 1
  funext other
  exact Function.apply_update (fun _ => f) st.info side info other

/-- Two machines go in step. -/
theorem step_agrees (h : e.Agrees e' f g I J) (hst : st.Within I J) (event : RttEvent) :
    (st.step e event).Within I J ∧ (st.step e event).map f g = (st.map f g).step e' event := by
  cases event with
  | sample side current timestamp =>
      rw [step, step]
      by_cases hrtt : current - timestamp < 10000
      · obtain ⟨hinfo, heq⟩ := h.update (st.info side) (current - timestamp) current (hst.info side) hrtt
        rw [if_pos hrtt, if_pos hrtt, map_setInfo, heq]
        exact ⟨hst.setInfo side hinfo, rfl⟩
      · rw [if_neg hrtt, if_neg hrtt]
        exact ⟨hst, rfl⟩
  | ping side =>
      obtain ⟨htimeout, heq⟩ := h.timeout (st.info side) (hst.info side)
      constructor
      · refine ⟨hst.info, ?_⟩
        apply (Function.forall_update_iff st.pings fun _ pings => ∀ rto ∈ pings, J rto).mpr
        exact ⟨List.forall_mem_cons.mpr ⟨htimeout, hst.pings side.peer⟩, fun other _ => hst.pings other⟩
      · rw [step, step, map, map]
        congr 1
        funext other
        rw [← heq, ← List.map_cons]
        exact Function.apply_update (fun _ => List.map g) st.pings side.peer _ other
  | receive side position current =>
      have hmap : ((st.map f g).pings side)[position]? = ((st.pings side)[position]?).map g := List.getElem?_map
      rw [step, step, hmap]
      cases hping : (st.pings side)[position]? with
      | none => exact ⟨hst, rfl⟩
      | some rto =>
          have hrto := hst.pings side rto (List.mem_of_getElem? hping)
          obtain ⟨hinfo, heq⟩ := h.updatePeerRTO (st.info side) rto current (hst.info side) hrto
          dsimp only [Option.map_some]
          rw [map_setInfo, heq]
          exact ⟨hst.setInfo side hinfo, rfl⟩

/-- The machines go in step in every run, and the properties hold in all its states. -/
theorem run_agrees (h : e.Agrees e' f g I J) (hst : st.Within I J) (events : List RttEvent) :
    (run (step e) st events).Within I J ∧
      (run (step e) st events).map f g = run (step e') (st.map f g) events := by
  induction events generalizing st with
  | nil => exact ⟨hst, rfl⟩
  | cons event events ih =>
      obtain ⟨hnext, heq⟩ := step_agrees h hst event
      obtain ⟨hrun, hmap⟩ := ih hnext
      refine ⟨hrun, ?_⟩
      rw [run_cons, hmap, heq, run_cons]

end Peers

end Machines

section Numbers

theorem toNat_add_of_lt {x y : UInt32} (h : x.toNat + y.toNat < 2 ^ 32) :
    (x + y).toNat = x.toNat + y.toNat := by
  rw [UInt32.toNat_add, Nat.mod_eq_of_lt h]

theorem toNat_mul_of_lt {x y : UInt32} (h : x.toNat * y.toNat < 2 ^ 32) :
    (x * y).toNat = x.toNat * y.toNat := by
  rw [UInt32.toNat_mul, Nat.mod_eq_of_lt h]

/-- A weighted average. -/
theorem toNat_average {a b x y : UInt32} (h : a.toNat * x.toNat + y.toNat < 2 ^ 32) :
    ((a * x + y) / b).toNat = (a.toNat * x.toNat + y.toNat) / b.toNat := by
  have hmul : (a * x).toNat = a.toNat * x.toNat := toNat_mul_of_lt (by omega)
  rw [UInt32.toNat_div, toNat_add_of_lt (by rwa [hmul]), hmul]

theorem toNat_distance (x y : UInt32) :
    (if x > y then x - y else y - x).toNat = max x.toNat y.toNat - min x.toNat y.toNat := by
  split_ifs with hgt
  · have hle := UInt32.le_of_lt hgt
    rw [UInt32.toNat_sub_of_le _ _ hle]
    rw [UInt32.le_iff_toNat_le] at hle
    omega
  · have hle := UInt32.not_lt.mp hgt
    rw [UInt32.toNat_sub_of_le _ _ hle]
    rw [UInt32.le_iff_toNat_le] at hle
    omega

theorem toNat_atLeast (x y : UInt32) : (if x < y then y else x).toNat = max y.toNat x.toNat := by
  split_ifs with hlt
  · exact (max_eq_left (UInt32.le_iff_toNat_le.mp (UInt32.le_of_lt hlt))).symm
  · exact (max_eq_right (UInt32.le_iff_toNat_le.mp (UInt32.not_lt.mp hlt))).symm

theorem toNat_atMost (x y : UInt32) : (if x > y then y else x).toNat = min x.toNat y.toNat := by
  split_ifs with hgt
  · exact (min_eq_right (UInt32.le_iff_toNat_le.mp (UInt32.le_of_lt hgt))).symm
  · exact (min_eq_left (UInt32.le_iff_toNat_le.mp (UInt32.not_lt.mp hgt))).symm

end Numbers

namespace RoundTripInfo

structure Bounded (info : RoundTripInfo) : Prop where
  srtt : info.srtt ≤ 9999
  variation : info.variation ≤ 9999
  rto : info.rto ≤ 12500
  minRtt : info.minRtt ≤ 1000

variable {info : RoundTripInfo} {rtt current : UInt32}

/-- The smoothed time and its variation after a sample. -/
def smooth (info : RoundTripInfo) (rtt : UInt32) : RoundTripInfo :=
  if info.srtt = 0 then { info with srtt := rtt, variation := rtt / 2 }
  else
    { info with
      variation := (3 * info.variation + if info.srtt > rtt then info.srtt - rtt else rtt - info.srtt) / 4
      srtt := if (7 * info.srtt + rtt) / 8 < info.minRtt then info.minRtt else (7 * info.srtt + rtt) / 8 }

/-- The timeout before it is limited. -/
def unlimited (info : RoundTripInfo) : UInt32 :=
  if info.minRtt < 4 * info.variation then info.srtt + 4 * info.variation else info.srtt + info.variation

theorem update_eq (hrtt : rtt < 10000) : info.update rtt current =
    { info.smooth rtt with
      rto := (if (info.smooth rtt).unlimited > 10000 then 10000 else (info.smooth rtt).unlimited) * 5 / 4
      updatedTimestamp := current } := by
  have hsmall : ¬rtt > 0x7FFFFFFF := UInt32.not_lt.mpr (UInt32.le_of_lt (UInt32.lt_trans hrtt (by decide)))
  rw [update, if_neg hsmall]
  rfl

theorem smooth_exact (h : info.Bounded) (hrtt : rtt < 10000) :
    (info.smooth rtt).exact = info.exact.smooth rtt.toNat := by
  have hsrtt := UInt32.le_iff_toNat_le.mp h.srtt
  have hvariation := UInt32.le_iff_toNat_le.mp h.variation
  have hrtt' := UInt32.lt_iff_toNat_lt.mp hrtt
  change _ ≤ 9999 at hsrtt hvariation
  change _ < 10000 at hrtt'
  unfold smooth Estimate.smooth
  by_cases hzero : info.srtt = 0
  · have hzero' : info.exact.srtt = 0 := congrArg UInt32.toNat hzero
    rw [if_pos hzero, if_pos hzero', exact, UInt32.toNat_div]
    rfl
  · have hzero' : info.exact.srtt ≠ 0 := fun heq => hzero (UInt32.toNat_inj.mp heq)
    have hdistance := toNat_distance info.srtt rtt
    have haverage : ((7 * info.srtt + rtt) / 8).toNat = (7 * info.srtt.toNat + rtt.toNat) / 8 :=
      toNat_average (by change 7 * _ + _ < _; omega)
    have hdeviation :
        ((3 * info.variation + if info.srtt > rtt then info.srtt - rtt else rtt - info.srtt) / 4).toNat =
          (3 * info.variation.toNat + (max info.srtt.toNat rtt.toNat - min info.srtt.toNat rtt.toNat)) / 4 := by
      rw [← hdistance]
      exact toNat_average (by rw [hdistance]; change 3 * _ + _ < _; omega)
    rw [if_neg hzero, if_neg hzero', exact, hdeviation, toNat_atLeast, haverage]
    rfl

theorem smooth_bounded (h : info.Bounded) (hrtt : rtt < 10000) :
    (info.smooth rtt).srtt ≤ 9999 ∧ (info.smooth rtt).variation ≤ 9999 ∧ (info.smooth rtt).minRtt ≤ 1000 := by
  have hsrtt : info.exact.srtt ≤ 9999 := UInt32.le_iff_toNat_le.mp h.srtt
  have hvariation : info.exact.variation ≤ 9999 := UInt32.le_iff_toNat_le.mp h.variation
  have hminRtt : info.exact.minRtt ≤ 1000 := UInt32.le_iff_toNat_le.mp h.minRtt
  have hrtt' : rtt.toNat < 10000 := UInt32.lt_iff_toNat_lt.mp hrtt
  have hexact := smooth_exact h hrtt
  have hbounds : (info.exact.smooth rtt.toNat).srtt ≤ 9999 ∧ (info.exact.smooth rtt.toNat).variation ≤ 9999 ∧
      (info.exact.smooth rtt.toNat).minRtt ≤ 1000 := by
    unfold Estimate.smooth
    split_ifs
    · dsimp only
      omega
    · dsimp only
      omega
  rw [← hexact] at hbounds
  obtain ⟨hs, hv, hm⟩ := hbounds
  exact ⟨UInt32.le_iff_toNat_le.mpr hs, UInt32.le_iff_toNat_le.mpr hv, UInt32.le_iff_toNat_le.mpr hm⟩

theorem unlimited_exact (hsrtt : info.srtt ≤ 9999) (hvariation : info.variation ≤ 9999) :
    info.unlimited.toNat = info.srtt.toNat +
      if info.minRtt.toNat < 4 * info.variation.toNat then 4 * info.variation.toNat else info.variation.toNat := by
  have hsrtt' : info.srtt.toNat ≤ 9999 := UInt32.le_iff_toNat_le.mp hsrtt
  have hvariation' : info.variation.toNat ≤ 9999 := UInt32.le_iff_toNat_le.mp hvariation
  have hfour : (4 * info.variation).toNat = 4 * info.variation.toNat :=
    toNat_mul_of_lt (by change 4 * _ < _; omega)
  have hlt : info.minRtt < 4 * info.variation ↔ info.minRtt.toNat < 4 * info.variation.toNat := by
    rw [UInt32.lt_iff_toNat_lt, hfour]
  unfold unlimited
  by_cases hsmall : info.minRtt < 4 * info.variation
  · rw [if_pos hsmall, if_pos (hlt.mp hsmall), toNat_add_of_lt (by omega), hfour]
  · rw [if_neg hsmall, if_neg (mt hlt.mpr hsmall), toNat_add_of_lt (by omega)]

/-- **A sample keeps the bounds and wraps nothing around.** -/
theorem update_agrees (h : info.Bounded) (hrtt : rtt < 10000) (current : UInt32) :
    (info.update rtt current).Bounded ∧
      (info.update rtt current).exact = info.exact.update rtt.toNat current := by
  obtain ⟨hsrtt, hvariation, hminRtt⟩ := smooth_bounded h hrtt
  have hlimited : (if (info.smooth rtt).unlimited > 10000 then 10000 else (info.smooth rtt).unlimited).toNat =
      min (info.smooth rtt).unlimited.toNat 10000 := toNat_atMost _ _
  have hscaled :
      ((if (info.smooth rtt).unlimited > 10000 then 10000 else (info.smooth rtt).unlimited) * 5 / 4).toNat =
        min (info.smooth rtt).unlimited.toNat 10000 * 5 / 4 := by
    rw [UInt32.toNat_div, toNat_mul_of_lt, hlimited]
    · rfl
    · rw [hlimited]
      change _ * 5 < _
      omega
  rw [update_eq hrtt]
  constructor
  · refine ⟨hsrtt, hvariation, UInt32.le_iff_toNat_le.mpr ?_, hminRtt⟩
    dsimp only
    rw [hscaled]
    change _ ≤ 12500
    omega
  · rw [Estimate.update, ← smooth_exact h hrtt]
    unfold exact
    dsimp only
    rw [hscaled, unlimited_exact hsrtt hvariation]

theorem updatePeerRTO_agrees (h : info.Bounded) {rto : UInt32} (hrto : rto ≤ 12500) (current : UInt32) :
    (info.updatePeerRTO rto current).Bounded ∧
      (info.updatePeerRTO rto current).exact = info.exact.updatePeerRTO rto.toNat current := by
  rw [updatePeerRTO, Estimate.updatePeerRTO]
  by_cases hrecent : current - info.updatedTimestamp < 3000
  · rw [if_pos hrecent, if_pos (show current - info.exact.updatedTimestamp < 3000 from hrecent)]
    exact ⟨h, rfl⟩
  · rw [if_neg hrecent, if_neg (show ¬current - info.exact.updatedTimestamp < 3000 from hrecent)]
    exact ⟨⟨h.srtt, h.variation, hrto, h.minRtt⟩, rfl⟩

end RoundTripInfo

theorem newRoundTrip_bounded {config : Config} {info : RoundTripInfo} (h : newRoundTrip config = .ok info) :
    info.Bounded := by
  unfold newRoundTrip at h
  split_ifs at h with hzero
  obtain rfl := Except.ok.inj h
  have hrto : (100 : UInt32) ≤ 12500 := by decide
  refine ⟨UInt32.zero_le, UInt32.zero_le, hrto, UInt32.le_iff_toNat_le.mpr ?_⟩
  have hdiv : 1000 / config.getTTIValue ≠ 0 := fun heq => hzero (.inr (.inr heq))
  by_contra hlarge
  apply hdiv
  apply UInt32.toNat_inj.mp
  rw [UInt32.toNat_div]
  exact Nat.div_eq_of_lt (not_le.mp hlarge)

theorem within_new {info : Side → RoundTripInfo} (hinfo : ∀ side, (info side).Bounded) :
    ({ info } : Peers RoundTripInfo UInt32).Within RoundTripInfo.Bounded (· ≤ 12500) :=
  ⟨hinfo, fun _ _ hrto => absurd hrto List.not_mem_nil⟩

theorem roundTripEstimator_agrees : roundTripEstimator.Agrees exactEstimator RoundTripInfo.exact UInt32.toNat
    RoundTripInfo.Bounded (· ≤ 12500) where
  update _ _ current h hrtt := RoundTripInfo.update_agrees h hrtt current
  updatePeerRTO _ _ current h hrto := RoundTripInfo.updatePeerRTO_agrees h hrto current
  timeout _ h := ⟨h.rto, rfl⟩

/-- **Retransmission timeouts stay bounded.** Whatever samples two ends take and whichever pings they receive, the
estimates are those of natural numbers, and no timeout exceeds 12500. -/
theorem roundTrip_bounded (config : Side → Config) {info : Side → RoundTripInfo}
    (hnew : ∀ side, newRoundTrip (config side) = .ok (info side)) (events : List RttEvent) :
    (∀ side, ((run (Peers.step roundTripEstimator) { info } events).info side).srtt ≤ 9999 ∧
      ((run (Peers.step roundTripEstimator) { info } events).info side).variation ≤ 9999 ∧
      ((run (Peers.step roundTripEstimator) { info } events).info side).rto ≤ 12500) ∧
    (run (Peers.step roundTripEstimator) { info } events).map RoundTripInfo.exact UInt32.toNat =
      run (Peers.step exactEstimator) { info := fun side => (info side).exact } events := by
  have hstart := within_new fun side => newRoundTrip_bounded (hnew side)
  obtain ⟨hwithin, hexact⟩ := Peers.run_agrees roundTripEstimator_agrees hstart events
  refine ⟨fun side => ?_, hexact⟩
  have hbounded := hwithin.info side
  exact ⟨hbounded.srtt, hbounded.variation, hbounded.rto⟩

/-- Two ends with the default settings, of which the client takes a sample and the server receives its timeout. -/
theorem roundTrip_bounded_default :
    ((run (Peers.step roundTripEstimator) { info := fun _ => { rto := 100, minRtt := 50 } }
      [.sample .client 4000 1, .ping .client, .receive .server 0 5000]).info .server).rto ≤ 12500 :=
  ((roundTrip_bounded (fun _ => {}) (fun _ => rfl) _).1 .server).2.2

section Systems

variable {α : Type} {β : Type}

/-- The timeout a segment carries. -/
def Segment.peerRTO : Segment β → Option UInt32
  | .cmdOnly seg => some seg.peerRTO
  | _ => none

/-- The estimates of a system and the pings on its network. -/
def System.peers (st : System α) : Peers RoundTripInfo UInt32 :=
  { info := fun side => (st.conn side).roundTrip
    pings := fun side => (st.inbox side).filterMap Segment.peerRTO }

variable (st : System α)

theorem System.peers_setConn (side : Side) (c : Connection (Tagged α)) :
    (st.setConn side c).peers = st.peers.setInfo side c.roundTrip := by
  unfold System.peers System.setConn Peers.setInfo
  congr 1
  funext other
  exact Function.apply_update (fun _ => Connection.roundTrip) st.conn side c other

theorem System.peers_setConn_of_eq {side : Side} {c : Connection (Tagged α)}
    (hc : c.roundTrip = (st.conn side).roundTrip) : (st.setConn side c).peers = st.peers := by
  rw [peers_setConn, hc, Peers.setInfo]
  exact congrArg (fun info => { st.peers with info }) (Function.update_eq_self side st.peers.info)

theorem System.peers_emit (side : Side) (segs : List (Segment (Tagged α))) :
    (st.emit side segs).peers = ⟨st.peers.info, Function.update st.peers.pings side.peer
      (segs.filterMap Segment.peerRTO ++ st.peers.pings side.peer)⟩ := by
  unfold System.peers System.emit
  congr 1
  funext other
  rw [← List.filterMap_append]
  exact Function.apply_update (fun _ => List.filterMap Segment.peerRTO) st.inbox side.peer _ other

theorem System.peers_emit_of_nil (side : Side) {segs : List (Segment (Tagged α))}
    (hsegs : segs.filterMap Segment.peerRTO = []) : (st.emit side segs).peers = st.peers := by
  rw [peers_emit, hsegs, List.nil_append, Function.update_eq_self]

theorem SendingWorker.sample_lt {w : SendingWorker β} {current rto rtt : UInt32} {seg : AckSegment}
    (h : (w.processSegment current seg rto).2 = some rtt) : rtt = current - seg.timestamp ∧ rtt < 10000 := by
  rw [processSegment_eq] at h
  dsimp only at h
  split_ifs at h with hclosed hempty hremoved hrecent
  obtain rfl := Option.some.inj h
  exact ⟨rfl, hrecent⟩

/-- A flush sends at most one ping. -/
theorem Connection.peerRTO_flushSending (c : Connection β) (current : UInt32) :
    (c.flushSending current).2.filterMap Segment.peerRTO = [] ∨
      (c.flushSending current).2.filterMap Segment.peerRTO = [c.roundTrip.timeout] := by
  have hdata (written : List (DataSegment β)) : (written.map Segment.data).filterMap Segment.peerRTO = [] := by
    simp [Segment.peerRTO]
  rcases hflush : c.sendingWorker.flush c.conversation c.outgoingOption c.config current c.roundTrip.timeout with
    ⟨w, written, updated⟩
  simp only [flushSending, hflush, List.filterMap_append, hdata, List.nil_append]
  cases updated with
  | false => exact .inl rfl
  | true => exact .inr rfl

/-- What a segment that is received does to the estimates. -/
theorem Connection.roundTrip_input (c : Connection β) (current : UInt32) (seg : Segment β) :
    (c.input current seg).roundTrip = c.roundTrip ∨
    (∃ timestamp, current - timestamp < 10000 ∧
      (c.input current seg).roundTrip = c.roundTrip.update (current - timestamp) current) ∨
    ∃ rto, seg.peerRTO = some rto ∧ (c.input current seg).roundTrip = c.roundTrip.updatePeerRTO rto current := by
  by_cases hconversation : seg.conversation ≠ c.conversation
  · left
    rw [input, if_pos hconversation]
  · have hoption := (c.moves_handleOption seg.option).roundTrip
    rw [input, if_neg hconversation]
    cases seg with
    | data seg => exact .inl hoption
    | ack seg =>
        rcases hprocess : (c.handleOption seg.option).sendingWorker.processSegment current seg
          (c.handleOption seg.option).roundTrip.timeout with ⟨w, sample⟩
        simp only [Segment.option, hprocess]
        cases sample with
        | none => exact .inl hoption
        | some rtt =>
            obtain ⟨rfl, hrecent⟩ := SendingWorker.sample_lt (congrArg Prod.snd hprocess)
            refine .inr (.inl ⟨seg.timestamp, hrecent, ?_⟩)
            exact congrArg (RoundTripInfo.update · (current - seg.timestamp) current) hoption
    | cmdOnly seg =>
        have hcommand := ((c.handleOption seg.option).moves_handleCommand seg.cmd).roundTrip
        refine .inr (.inr ⟨seg.peerRTO, rfl, ?_⟩)
        exact congrArg (RoundTripInfo.updatePeerRTO · seg.peerRTO current) (hcommand.trans hoption)

/-- **A step of two connections is a run of their estimates.** -/
theorem System.exists_events (action : Action α) :
    ∃ events, (st.step action).peers = Transition.run (Peers.step roundTripEstimator) st.peers events := by
  cases action with
  | push side b =>
      refine ⟨[], ?_⟩
      obtain hsame | ⟨w, -, -, -, hpush⟩ := st.push_cases side b
      · exact congrArg System.peers hsame
      · exact (congrArg System.peers hpush).trans (st.peers_setConn_of_eq rfl)
  | flushSending side current =>
      have hconn : (st.setConn side ((st.conn side).flushSending current).1).peers = st.peers :=
        st.peers_setConn_of_eq rfl
      obtain hnone | hping := (st.conn side).peerRTO_flushSending current
      · exact ⟨[], (peers_emit_of_nil _ side hnone).trans hconn⟩
      · have hemit := (st.setConn side ((st.conn side).flushSending current).1).peers_emit side
          ((st.conn side).flushSending current).2
        rw [hconn, hping] at hemit
        exact ⟨[.ping side], hemit⟩
  | flushReceiving side current =>
      have hacks : ((st.conn side).flushReceiving current).2.filterMap Segment.peerRTO = [] := by
        simp [Connection.flushReceiving, Segment.peerRTO]
      exact ⟨[], (peers_emit_of_nil _ side hacks).trans (st.peers_setConn_of_eq rfl)⟩
  | ping side => exact ⟨[.ping side], st.peers_emit side _⟩
  | input side current position =>
      cases hseg : (st.inbox side)[position]? with
      | none =>
          refine ⟨[], ?_⟩
          rw [step, hseg]
          rfl
      | some seg =>
          rw [step, hseg]
          dsimp only
          obtain hsame | ⟨timestamp, hrecent, hupdate⟩ | ⟨rto, hrto, hupdate⟩ :=
            (st.conn side).roundTrip_input current seg
          · exact ⟨[], st.peers_setConn_of_eq hsame⟩
          · refine ⟨[.sample side current timestamp], ?_⟩
            rw [peers_setConn, hupdate, Transition.run_cons, Transition.run_nil, Peers.step, if_pos hrecent]
            rfl
          · have hping : rto ∈ st.peers.pings side :=
              List.mem_filterMap.mpr ⟨seg, List.mem_of_getElem? hseg, hrto⟩
            obtain ⟨index, hindex⟩ := List.getElem?_of_mem hping
            refine ⟨[.receive side index current], ?_⟩
            rw [peers_setConn, hupdate, Transition.run_cons, Transition.run_nil, Peers.step, hindex]
            rfl
  | readMultiBuffer side => exact ⟨[], st.peers_setConn_of_eq rfl⟩

theorem System.exists_events_run (actions : List (Action α)) :
    ∃ events, (st.run actions).peers = Transition.run (Peers.step roundTripEstimator) st.peers events := by
  induction actions generalizing st with
  | nil => exact ⟨[], rfl⟩
  | cons action actions ih =>
      obtain ⟨first, hfirst⟩ := st.exists_events action
      obtain ⟨rest, hrest⟩ := ih (st.step action)
      refine ⟨first ++ rest, ?_⟩
      rw [System.run_cons, hrest, hfirst, Transition.run_append]

/-- **Two connections keep their timeouts bounded**, whatever the network does with the segments. -/
theorem System.roundTrip_run_bounded (conversation : UInt16) {config : Side → Config}
    (hnew : ∀ side, ∃ info, newRoundTrip (config side) = .ok info) (actions : List (Action α)) (side : Side) :
    (((System.new conversation config).run actions).conn side).roundTrip.Bounded := by
  have hstart : (System.new conversation config : System α).peers.Within RoundTripInfo.Bounded (· ≤ 12500) := by
    refine within_new fun side => ?_
    obtain ⟨info, hinfo⟩ := hnew side
    have hbounded := newRoundTrip_bounded hinfo
    unfold newRoundTrip at hinfo
    split_ifs at hinfo
    rwa [← Except.ok.inj hinfo] at hbounded
  obtain ⟨events, hevents⟩ := (System.new conversation config : System α).exists_events_run actions
  have hwithin := (Peers.run_agrees roundTripEstimator_agrees hstart events).1
  rw [← hevents] at hwithin
  exact hwithin.info side

theorem System.roundTrip_run_bounded_default :
    (((System.new 0 fun _ => {}).run
      [.ping (α := Unit) .client, .input .server 7 0]).conn .server).roundTrip.Bounded :=
  System.roundTrip_run_bounded 0 (fun _ => ⟨_, rfl⟩) _ .server

end Systems

end V2RootCore.Kcp
