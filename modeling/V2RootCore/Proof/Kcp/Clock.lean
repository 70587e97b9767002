import V2RootCore.Kcp.Clock
import V2RootCore.Proof.Kcp.Sending
import Mathlib.Tactic.Common

/-!
# Transmissions at any age of a connection

One comparison decides whether a flush sends a segment. For a segment that was sent before it asks, modulo
`2 ^ 32`, whether its timeout has passed. The timeout of a segment that was never sent is still zero, so for it
the comparison is about the clock itself: from `2 ^ 31 - 1` milliseconds on the segment is not due.
-/

namespace V2RootCore.Kcp

namespace SendingWindow

variable {β : Type}

def due (current : UInt32) (seg : DataSegment β) : Bool := decide (current - seg.timeout < 0x7FFFFFFF)

/-- A segment as a flush at this time writes it and leaves it in the window. -/
def sent (write : DataSegment β → DataSegment β) (current rto : UInt32) (seg : DataSegment β) :
    DataSegment β :=
  write { seg with timeout := current + rto, timestamp := current, transmit := seg.transmit + 1 }

variable {write : DataSegment β → DataSegment β} {current rto maxInFlightSize : UInt32}

theorem flushSegment_of_not_due {acc : FlushState β} {seg : DataSegment β}
    (hdue : due current seg = false) :
    flushSegment write current rto maxInFlightSize acc seg = (acc, seg, true) := by
  rw [due, decide_eq_false_iff_not, UInt32.not_lt] at hdue
  exact if_pos hdue

theorem flushSegment_of_due (write : DataSegment β → DataSegment β) (rto maxInFlightSize : UInt32)
    (acc : FlushState β) {seg : DataSegment β} (hdue : due current seg = true) :
    ∃ acc' : FlushState β, acc'.inFlightSize = acc.inFlightSize + 1 ∧
      acc'.written = acc.written ++ [sent write current rto seg] ∧
      flushSegment write current rto maxInFlightSize acc seg =
        (acc', sent write current rto seg, decide (acc.inFlightSize + 1 < maxInFlightSize)) := by
  rw [due, decide_eq_true_eq, ← UInt32.not_le] at hdue
  exact ⟨_, rfl, rfl, if_neg hdue⟩

/-- With room for all segments, a flush reaches the end of the list and writes those that are due. -/
theorem visit_flushSegment_written {segs : List (DataSegment β)} (acc : FlushState β)
    (hroom : acc.inFlightSize.toNat + segs.length < maxInFlightSize.toNat) :
    (visit (flushSegment write current rto maxInFlightSize) acc segs).1.written =
      acc.written ++ (segs.filter (due current)).map (sent write current rto) := by
  induction segs generalizing acc with
  | nil => simp [visit]
  | cons seg rest ih =>
      rw [List.length_cons] at hroom
      cases hdue : due current seg with
      | false =>
          simp only [visit, flushSegment_of_not_due hdue]
          rw [ih acc (by omega), List.filter_cons_of_neg (by simp [hdue])]
      | true =>
          obtain ⟨acc', hsize, hwritten, hvisit⟩ :=
            flushSegment_of_due write rto maxInFlightSize acc hdue
          have hlimit := maxInFlightSize.toNat_lt
          have hnext : (acc.inFlightSize + 1).toNat = acc.inFlightSize.toNat + 1 := by
            rw [UInt32.toNat_add, UInt32.toNat_one, Nat.mod_eq_of_lt (by omega)]
          have hgoes : acc.inFlightSize + 1 < maxInFlightSize := by
            rw [UInt32.lt_iff_toNat_lt, hnext]
            omega
          rw [decide_eq_true hgoes] at hvisit
          simp only [visit, hvisit]
          rw [ih acc' (by rw [hsize, hnext]; omega), hwritten, List.filter_cons_of_pos hdue, List.map_cons,
            List.append_assoc, List.singleton_append]

theorem flush_written {window : SendingWindow β} (hroom : window.cache.length < maxInFlightSize.toNat) :
    (window.flush write current rto maxInFlightSize).2.1 =
      (window.cache.filter (due current)).map (sent write current rto) := by
  unfold flush
  split
  · next hempty =>
      have hnil : window.cache = [] := by simpa [isEmpty] using hempty
      simp [hnil]
  · exact visit_flushSegment_written { totalInFlightSize := window.totalInFlightSize } (by simpa)

theorem flush_map {γ : Type} {f : DataSegment β → γ} (hsent : ∀ seg, f (sent write current rto seg) = f seg)
    (window : SendingWindow β) :
    (window.flush write current rto maxInFlightSize).1.cache.map f = window.cache.map f := by
  unfold flush
  split
  · rfl
  · refine visit_map (fun acc seg => ?_) _ window.cache
    unfold flushSegment
    split
    · rfl
    · exact hsent seg

theorem flush_forall {P : DataSegment β → Prop} (hsent : ∀ seg, P seg → P (sent write current rto seg))
    {window : SendingWindow β} (hcache : ∀ seg ∈ window.cache, P seg) :
    ∀ seg ∈ (window.flush write current rto maxInFlightSize).1.cache, P seg := by
  unfold flush
  split
  · exact hcache
  · refine visit_forall (fun acc seg hseg => ?_) _ hcache
    unfold flushSegment
    split
    · exact hseg
    · exact hsent seg hseg

end SendingWindow

namespace TimedWindow

open SendingWindow Transition

variable {β : Type} {st : TimedWindow β}

/-- What the timing fields of a segment say about its last transmission. -/
structure Kept (elapsed : Nat) (fastAcked : Bool) (seg : DataSegment (Tracked β)) : Prop where
  fresh : seg.payload.last = none → seg.timeout = 0 ∧ seg.transmit = 0
  again : fastAcked = false → ∀ t, seg.payload.last = some t →
    t.time ≤ elapsed ∧ t.rto ≤ 12500 ∧ seg.timeout = UInt32.ofNat t.time + t.rto

structure Timed (st : TimedWindow β) : Prop where
  identities : (st.window.cache.map fun seg => seg.payload.identity).Nodup
  identity_lt : ∀ seg ∈ st.window.cache, seg.payload.identity < st.pushed
  kept : ∀ seg ∈ st.window.cache, Kept st.elapsed st.fastAcked seg

theorem Timed.of_sublist (h : Timed st) {window : SendingWindow (Tracked β)}
    (hsublist : window.cache.Sublist st.window.cache) : Timed { st with window } where
  identities := h.identities.sublist (hsublist.map _)
  identity_lt := fun seg hseg => h.identity_lt seg (hsublist.subset hseg)
  kept := fun seg hseg => h.kept seg (hsublist.subset hseg)

theorem remove_sublist (window : SendingWindow β) (number : UInt32) :
    (window.remove number).1.cache.Sublist window.cache := by
  unfold SendingWindow.remove
  split
  · exact List.Sublist.refl _
  · next removed cache hremove =>
      obtain ⟨-, before, after, hcache, hrest⟩ := removeFrom_eq_some hremove
      rw [hcache, hrest]
      exact (List.Sublist.refl before).append (List.sublist_cons_self removed after)

theorem Timed.advance (h : Timed st) (milliseconds : Nat) :
    Timed (st.step (.advance milliseconds)) where
  identities := h.identities
  identity_lt := h.identity_lt
  kept := fun seg hseg => by
    refine ⟨(h.kept seg hseg).fresh, fun hfast t hlast => ?_⟩
    obtain ⟨htime, hrto, htimeout⟩ := (h.kept seg hseg).again hfast t hlast
    exact ⟨htime.trans (Nat.le_add_right _ _), hrto, htimeout⟩

theorem Timed.push (h : Timed st) (number : UInt32) (b : β) : Timed (st.step (.push number b)) where
  identities := by
    simp only [step, SendingWindow.push, List.map_append, List.map_cons, List.map_nil]
    refine h.identities.append (List.nodup_singleton _) ?_
    intro identity hold hnew
    obtain ⟨seg, hseg, rfl⟩ := List.mem_map.mp hold
    exact absurd (List.mem_singleton.mp hnew) (h.identity_lt seg hseg).ne
  identity_lt := by
    intro seg hseg
    obtain hold | hnew := List.mem_append.mp hseg
    · exact (h.identity_lt seg hold).trans (Nat.lt_succ_self _)
    · rw [List.mem_singleton.mp hnew]
      exact Nat.lt_succ_self _
  kept := by
    intro seg hseg
    obtain hold | hnew := List.mem_append.mp hseg
    · exact h.kept seg hold
    · rw [List.mem_singleton.mp hnew]
      exact ⟨fun _ => ⟨rfl, rfl⟩, fun _ t hlast => absurd hlast.symm (Option.some_ne_none t)⟩

theorem Timed.flush (h : Timed st) (heading : Heading) (rto : Rto) (maxInFlightSize : UInt32) :
    Timed (st.step (.flush heading rto maxInFlightSize)) where
  identities := by
    have hkeeps : (st.window.flush (st.write heading rto) st.current rto.value maxInFlightSize).1.cache.map
        (fun seg => seg.payload.identity) = st.window.cache.map fun seg => seg.payload.identity :=
      flush_map (fun _ => rfl) st.window
    exact hkeeps ▸ h.identities
  identity_lt := flush_forall (fun _ hseg => hseg) h.identity_lt
  kept := by
    refine flush_forall (fun seg _ => ?_) h.kept
    refine ⟨fun hlast => absurd hlast (Option.some_ne_none _), fun _ t hlast => ?_⟩
    obtain rfl := Option.some.inj hlast
    exact ⟨le_rfl, rto.le, rfl⟩

theorem Timed.handleFastAck (h : Timed st) (number : UInt32) (rto : Rto) :
    Timed (st.step (.handleFastAck number rto)) where
  identities := by
    have hkeeps : (visit (handleFastAckSegment number rto.value) () st.window.cache).2.map
        (fun seg => seg.payload.identity) = st.window.cache.map fun seg => seg.payload.identity := by
      refine visit_map (fun _ seg => ?_) () st.window.cache
      unfold handleFastAckSegment
      split
      · rfl
      · split <;> rfl
    exact hkeeps ▸ h.identities
  identity_lt := by
    refine visit_forall (fun _ seg hseg => ?_) () h.identity_lt
    unfold handleFastAckSegment
    split
    · exact hseg
    · split <;> exact hseg
  kept := by
    have hkept : ∀ seg ∈ st.window.cache, Kept st.elapsed true seg := fun seg hseg =>
      ⟨(h.kept seg hseg).fresh, fun hfast => nomatch hfast⟩
    refine visit_forall (fun _ seg hseg => ?_) () hkept
    unfold handleFastAckSegment
    split
    · exact hseg
    · split
      · next hsent =>
          -- the transmission counter of a segment that was never sent is zero
          refine ⟨fun hlast => ?_, fun hfast => nomatch hfast⟩
          exact absurd hsent.1 (by rw [(hseg.fresh hlast).2]; decide)
      · exact hseg

theorem Timed.step (h : Timed st) (event : Event β) : Timed (st.step event) := by
  cases event with
  | advance milliseconds => exact h.advance milliseconds
  | push number b => exact h.push number b
  | flush heading rto maxInFlightSize => exact h.flush heading rto maxInFlightSize
  | handleFastAck number rto => exact h.handleFastAck number rto
  | remove number => exact h.of_sublist (remove_sublist st.window number)
  | clear una => exact h.of_sublist (List.dropWhile_sublist _)

section Flush

variable (heading : Heading) (rto : Rto) (maxInFlightSize : UInt32)

/-- The segment as a flush now puts it on the wire. -/
def sentNow (st : TimedWindow β) (seg : DataSegment (Tracked β)) : DataSegment (Tracked β) :=
  sent (st.write heading rto) st.current rto.value seg

/-- A flush sends every segment that was never sent and, as long as no fast acknowledgement has moved a timeout,
repeats a segment exactly when its timeout has passed. -/
structure Transmits (st : TimedWindow β) : Prop where
  fresh : ∀ seg ∈ st.window.cache, seg.payload.last = none →
    st.sentNow heading rto seg ∈ (st.flush heading rto maxInFlightSize).2.1
  again : st.fastAcked = false → ∀ seg ∈ st.window.cache, ∀ t, seg.payload.last = some t →
    st.elapsed - t.time < 2 ^ 31 - 1 →
      (st.sentNow heading rto seg ∈ (st.flush heading rto maxInFlightSize).2.1 ↔
        t.rto.toNat ≤ st.elapsed - t.time)

variable {heading rto maxInFlightSize}

theorem Timed.sentNow_mem_iff (h : Timed st) (hroom : st.window.cache.length < maxInFlightSize.toNat)
    {seg : DataSegment (Tracked β)} (hseg : seg ∈ st.window.cache) :
    st.sentNow heading rto seg ∈ (st.flush heading rto maxInFlightSize).2.1 ↔
      due st.current seg = true := by
  unfold TimedWindow.flush
  rw [flush_written hroom, List.mem_map]
  constructor
  · rintro ⟨other, hother, hsame⟩
    obtain ⟨hmem, hdue⟩ := List.mem_filter.mp hother
    have hidentity := congrArg (fun seg : DataSegment (Tracked β) => seg.payload.identity) hsame
    rwa [List.inj_on_of_nodup_map h.identities hmem hseg hidentity] at hdue
  · intro hdue
    exact ⟨seg, List.mem_filter.mpr ⟨hseg, hdue⟩, rfl⟩

theorem Kept.due_iff_young {elapsed : Nat} {fastAcked : Bool} {current : UInt32}
    {seg : DataSegment (Tracked β)} (h : Kept elapsed fastAcked seg) (hlast : seg.payload.last = none) :
    due current seg = true ↔ current.toNat < 2 ^ 31 - 1 := by
  rw [due, decide_eq_true_eq, (h.fresh hlast).1, UInt32.sub_zero, UInt32.lt_iff_toNat_lt]
  exact Iff.rfl

/-- Modulo `2 ^ 32`, and with ages below half of it, the comparison is the one of the ages. -/
theorem Kept.due_iff_passed {elapsed : Nat} {seg : DataSegment (Tracked β)} (h : Kept elapsed false seg)
    {t : Transmission} (hlast : seg.payload.last = some t) (hage : elapsed - t.time < 2 ^ 31 - 1) :
    due (UInt32.ofNat elapsed) seg = true ↔ t.rto.toNat ≤ elapsed - t.time := by
  obtain ⟨htime, hrto, htimeout⟩ := h.again rfl t hlast
  rw [UInt32.le_iff_toNat_le] at hrto
  rw [due, decide_eq_true_eq, htimeout, UInt32.lt_iff_toNat_lt, UInt32.toNat_sub, UInt32.toNat_add,
    UInt32.toNat_ofNat', UInt32.toNat_ofNat']
  simp only [UInt32.reduceToNat] at hrto ⊢
  omega

theorem Timed.transmits_iff (h : Timed st) (hroom : st.window.cache.length < maxInFlightSize.toNat) :
    Transmits heading rto maxInFlightSize st ↔
      ((∃ seg ∈ st.window.cache, seg.payload.last = none) → st.current.toNat < 2 ^ 31 - 1) := by
  constructor
  · rintro htransmits ⟨seg, hseg, hlast⟩
    have hmem := htransmits.fresh seg hseg hlast
    rwa [h.sentNow_mem_iff hroom hseg, (h.kept seg hseg).due_iff_young hlast] at hmem
  · intro hyoung
    refine ⟨fun seg hseg hlast => ?_, fun hfast seg hseg t hlast hage => ?_⟩
    · rw [h.sentNow_mem_iff hroom hseg, (h.kept seg hseg).due_iff_young hlast]
      exact hyoung ⟨seg, hseg, hlast⟩
    · rw [h.sentNow_mem_iff hroom hseg]
      exact (hfast ▸ h.kept seg hseg).due_iff_passed hlast hage

end Flush

/-- The flush, if the event is one with room for all cached segments, transmits what it should. -/
def FlushTransmits (st : TimedWindow β) : Event β → Prop
  | .flush heading rto maxInFlightSize =>
      st.window.cache.length < maxInFlightSize.toNat → Transmits heading rto maxInFlightSize st
  | _ => True

/-- No flush with room for all cached segments meets a segment that was never sent when the clock, cut to 32
bits, shows `2 ^ 31 - 1` milliseconds or more. -/
def FlushYoung (st : TimedWindow β) : Event β → Prop
  | .flush _ _ maxInFlightSize =>
      st.window.cache.length < maxInFlightSize.toNat →
        (∃ seg ∈ st.window.cache, seg.payload.last = none) → st.current.toNat < 2 ^ 31 - 1
  | _ => True

/-- **In a run all flushes transmit what they should exactly when none of them meets a segment that was never
sent in the second half of the clock.** -/
theorem flushTransmits_iff_flushYoung (events : List (Event β)) :
    Along step FlushTransmits {} events ↔ Along step FlushYoung {} events := by
  have hstart : Timed ({} : TimedWindow β) :=
    ⟨List.nodup_nil, List.forall_mem_nil _, List.forall_mem_nil _⟩
  refine along_iff_along (I := Timed) (fun st event h _ => h.step event) ?_ events {} hstart
  intro st event h
  cases event with
  | flush heading rto maxInFlightSize => exact imp_congr_right fun hroom => h.transmits_iff hroom
  | advance milliseconds => exact Iff.rfl
  | push number b => exact Iff.rfl
  | handleFastAck number rto => exact Iff.rfl
  | remove number => exact Iff.rfl
  | clear una => exact Iff.rfl

/-- A segment pushed after `2 ^ 31 - 1` milliseconds, some 25 days, is not sent. -/
theorem not_flushTransmits_old :
    ¬ Along step FlushTransmits ({} : TimedWindow Unit)
      [.advance (2 ^ 31 - 1), .push 0 (), .flush {} ⟨100, by decide, by decide⟩ 32] := by
  intro halong
  have hsent := (halong.2.2.1 (by decide)).fresh _ List.mem_cons_self rfl
  exact absurd hsent (by decide)

end TimedWindow

end V2RootCore.Kcp
