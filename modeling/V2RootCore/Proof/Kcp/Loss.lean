import V2RootCore.Kcp.Loss
import V2RootCore.Proof.Kcp.Sending

/-!
# What the loss accounting counts

`Flush` adds to the counter what it transmits for the first time and `Remove` takes one off it. `Clear` takes off
nothing, so that the counter is right only in runs in which no cumulative acknowledgement removes a segment.
-/

namespace V2RootCore.Kcp.LossWindow

open SendingWindow Transition

variable {β : Type}

/-- The counter of transmissions is right. -/
structure Counts (seg : DataSegment (Tallied β)) : Prop where
  transmit : seg.transmit.toNat = seg.payload.times % 2 ^ 32
  le : seg.payload.times ≤ 2 ^ 32

/-- No segment's counter of transmissions has gone round. -/
def Counting (window : SendingWindow (Tallied β)) : Prop := ∀ seg ∈ window.cache, Counts seg

/-- The segments whose counter has gone round. -/
def late (segs : List (DataSegment (Tallied β))) : Nat := segs.countP fun seg => 2 ^ 32 < seg.payload.times

@[simp]
theorem transmitted_nil : transmitted ([] : List (DataSegment (Tallied β))) = 0 := rfl

@[simp]
theorem late_nil : late ([] : List (DataSegment (Tallied β))) = 0 := rfl

@[simp]
theorem transmitted_cons (seg : DataSegment (Tallied β)) (segs : List (DataSegment (Tallied β))) :
    transmitted (seg :: segs) = transmitted segs + if 0 < seg.payload.times then 1 else 0 := by
  simp [transmitted, List.countP_cons]

@[simp]
theorem late_cons (seg : DataSegment (Tallied β)) (segs : List (DataSegment (Tallied β))) :
    late (seg :: segs) = late segs + if 2 ^ 32 < seg.payload.times then 1 else 0 := by
  simp [late, List.countP_cons]

theorem late_eq_zero_iff {segs : List (DataSegment (Tallied β))} :
    late segs = 0 ↔ ∀ seg ∈ segs, seg.payload.times ≤ 2 ^ 32 := by
  simp [late]

/-- What `Flush` does to its counters and to the segments it visits. -/
structure Tally (acc : FlushState (Tallied β)) (segs : List (DataSegment (Tallied β)))
    (acc' : FlushState (Tallied β)) (segs' : List (DataSegment (Tallied β))) : Prop where
  total : (acc'.totalInFlightSize.toNat + transmitted segs) % 2 ^ 32 =
    (acc.totalInFlightSize.toNat + transmitted segs' + late segs') % 2 ^ 32
  late_le : late segs' ≤ transmitted segs
  lost_le : acc'.lost.toNat ≤ acc.lost.toNat + transmitted segs'
  transmit : ∀ seg ∈ segs', seg.transmit.toNat = seg.payload.times % 2 ^ 32

/-- The first `n` segments that are due. -/
def due (current : UInt32) (n : Nat) (segs : List (DataSegment (Tallied β))) : List (DataSegment (Tallied β)) :=
  (segs.filter fun seg => current - seg.timeout < 0x7FFFFFFF).take n

section Flush

variable {heading : Heading} {current rto maxInFlightSize : UInt32} {acc acc₁ acc₂ : FlushState (Tallied β)}
  {seg seg' : DataSegment (Tallied β)} {segs segs' : List (DataSegment (Tallied β))}

theorem Tally.refl (hsegs : ∀ seg ∈ segs, Counts seg) : Tally acc segs acc segs := by
  have hlate := late_eq_zero_iff.mpr fun seg hseg => (hsegs seg hseg).le
  refine ⟨?_, ?_, ?_, fun seg hseg => (hsegs seg hseg).transmit⟩
  · rw [hlate, Nat.add_zero]
  · omega
  · omega

theorem Tally.cons (hfirst : Tally acc [seg] acc₁ [seg']) (hrest : Tally acc₁ segs acc₂ segs') :
    Tally acc (seg :: segs) acc₂ (seg' :: segs') := by
  obtain ⟨htotal, hlate, hlost, htransmit⟩ := hfirst
  obtain ⟨htotal', hlate', hlost', htransmit'⟩ := hrest
  simp only [transmitted_cons, late_cons, transmitted_nil, late_nil] at htotal hlate hlost
  refine ⟨?_, ?_, ?_, List.forall_mem_cons.mpr ⟨htransmit _ List.mem_cons_self, htransmit'⟩⟩
  · simp only [transmitted_cons, late_cons]
    omega
  · simp only [transmitted_cons, late_cons]
    omega
  · simp only [transmitted_cons]
    omega

variable (heading : Heading) (current rto maxInFlightSize : UInt32)

theorem tally_flushSegment (hseg : Counts seg) (acc : FlushState (Tallied β)) :
    Tally acc [seg] (flushSegment (write heading) current rto maxInFlightSize acc seg).1
      [(flushSegment (write heading) current rto maxInFlightSize acc seg).2.1] := by
  unfold flushSegment
  split
  · exact .refl fun _ h => List.mem_singleton.mp h ▸ hseg
  · obtain ⟨htransmit, hle⟩ := hseg
    have hfirst : (seg.transmit == 0) = decide (seg.payload.times % 2 ^ 32 = 0) := by
      rw [Bool.beq_eq_decide_eq, ← htransmit, ← UInt32.toNat_zero]
      exact decide_eq_decide.mpr UInt32.toNat_inj.symm
    have htotal : (acc.totalInFlightSize + 1).toNat = (acc.totalInFlightSize.toNat + 1) % 2 ^ 32 :=
      UInt32.toNat_add _ _
    have hlost : (acc.lost + 1).toNat = (acc.lost.toNat + 1) % 2 ^ 32 := UInt32.toNat_add _ _
    have hnext : (seg.transmit + 1).toNat = (seg.transmit.toNat + 1) % 2 ^ 32 := UInt32.toNat_add _ _
    dsimp only
    rw [hfirst]
    refine ⟨?_, ?_, ?_, fun sent hsent => ?_⟩
    · simp only [transmitted_cons, late_cons, transmitted_nil, late_nil, write, decide_eq_true_eq]
      split_ifs <;> omega
    · simp only [transmitted_cons, late_cons, transmitted_nil, late_nil, write]
      split_ifs <;> omega
    · simp only [transmitted_cons, transmitted_nil, write, decide_eq_true_eq]
      split_ifs <;> omega
    · rw [List.mem_singleton.mp hsent]
      dsimp only [write]
      omega

theorem tally_visit (hsegs : ∀ seg ∈ segs, Counts seg) (acc : FlushState (Tallied β)) :
    Tally acc segs (visit (flushSegment (write heading) current rto maxInFlightSize) acc segs).1
      (visit (flushSegment (write heading) current rto maxInFlightSize) acc segs).2 := by
  induction segs generalizing acc with
  | nil => exact .refl hsegs
  | cons seg rest ih =>
      obtain ⟨hseg, hrest⟩ := List.forall_mem_cons.mp hsegs
      have hfirst := tally_flushSegment heading current rto maxInFlightSize hseg acc
      rcases hvisit : flushSegment (write heading) current rto maxInFlightSize acc seg with ⟨acc', seg', continues⟩
      rw [hvisit] at hfirst
      cases continues with
      | false =>
          simp only [visit, hvisit]
          exact hfirst.cons (.refl hrest)
      | true =>
          simp only [visit, hvisit]
          exact hfirst.cons (ih hrest acc')

/-- A flush transmits the segments that are due once more each. -/
theorem visit_due (segs : List (DataSegment (Tallied β))) (acc : FlushState (Tallied β))
    (hacc : acc.inFlightSize.toNat < max 1 maxInFlightSize.toNat) :
    let segs' := (visit (flushSegment (write heading) current rto maxInFlightSize) acc segs).2
    let sent := due current (max 1 maxInFlightSize.toNat - acc.inFlightSize.toNat) segs
    transmitted segs' = transmitted segs + sent.countP (fun seg => seg.payload.times = 0) ∧
      ((∀ seg ∈ segs', seg.payload.times ≤ 2 ^ 32) ↔
        (∀ seg ∈ segs, seg.payload.times ≤ 2 ^ 32) ∧ ∀ seg ∈ sent, seg.payload.times < 2 ^ 32) := by
  induction segs generalizing acc with
  | nil => simp [visit, due]
  | cons seg rest ih =>
      by_cases hdue : current - seg.timeout < 0x7FFFFFFF
      · obtain ⟨n, hn⟩ : ∃ n, max 1 maxInFlightSize.toNat - acc.inFlightSize.toNat = n + 1 :=
          Nat.exists_eq_succ_of_ne_zero (by omega)
        have hsent : due current (n + 1) (seg :: rest) = seg :: due current n rest := by
          simp [due, hdue]
        have hsize := maxInFlightSize.toNat_lt
        have hnext : (acc.inFlightSize + 1).toNat = acc.inFlightSize.toNat + 1 := by
          rw [UInt32.toNat_add, Nat.mod_eq_of_lt (by simp; omega)]
          rfl
        rcases hvisit : flushSegment (write heading) current rto maxInFlightSize acc seg
          with ⟨acc', seg', continues⟩
        obtain ⟨hacc', htimes, hcontinues⟩ : acc'.inFlightSize = acc.inFlightSize + 1 ∧
            seg'.payload.times = seg.payload.times + 1 ∧
            continues = decide (acc.inFlightSize + 1 < maxInFlightSize) := by
          rw [flushSegment, if_neg (UInt32.not_le.mpr hdue)] at hvisit
          cases hvisit
          exact ⟨rfl, rfl, rfl⟩
        rw [hn, hsent]
        cases continues with
        | false =>
            have hlast : n = 0 := by
              have hlarge := of_decide_eq_false hcontinues.symm
              rw [UInt32.lt_iff_toNat_lt, hnext] at hlarge
              omega
            simp only [visit, hvisit, hlast, due, List.take_zero, transmitted_cons, htimes, List.countP_cons,
              List.forall_mem_cons, List.countP_nil]
            grind
        | true =>
            have hmore := of_decide_eq_true hcontinues.symm
            rw [UInt32.lt_iff_toNat_lt, hnext] at hmore
            obtain ⟨hcount, hall⟩ := ih acc' (by rw [hacc', hnext]; omega)
            have hrest : max 1 maxInFlightSize.toNat - acc'.inFlightSize.toNat = n := by
              rw [hacc', hnext]
              omega
            rw [hrest] at hcount hall
            simp only [visit, hvisit, transmitted_cons, htimes, List.countP_cons, List.forall_mem_cons]
            grind
      · have hsent (n : Nat) : due current n (seg :: rest) = due current n rest := by simp [due, hdue]
        have hvisit : flushSegment (write heading) current rto maxInFlightSize acc seg = (acc, seg, true) :=
          if_pos (UInt32.not_lt.mp hdue)
        obtain ⟨hcount, hall⟩ := ih acc hacc
        simp only [visit, hvisit, hsent, transmitted_cons, List.forall_mem_cons]
        grind

/-- The counters of a flush, after the segments are visited. -/
def visited (window : SendingWindow (Tallied β)) : FlushState (Tallied β) × List (DataSegment (Tallied β)) :=
  visit (flushSegment (write heading) current rto maxInFlightSize)
    { totalInFlightSize := window.totalInFlightSize } window.cache

theorem tally_visited {window : SendingWindow (Tallied β)} (hcounts : Counting window) :
    Tally { totalInFlightSize := window.totalInFlightSize } window.cache
      (visited heading current rto maxInFlightSize window).1
      (visited heading current rto maxInFlightSize window).2 :=
  tally_visit heading current rto maxInFlightSize hcounts _

theorem flush_window (window : SendingWindow (Tallied β)) :
    (window.flush (write heading) current rto maxInFlightSize).1 =
      ⟨(visited heading current rto maxInFlightSize window).2,
        (visited heading current rto maxInFlightSize window).1.totalInFlightSize⟩ := by
  obtain ⟨cache, totalInFlightSize⟩ := window
  cases cache with
  | nil => rfl
  | cons seg rest => rfl

theorem lossRate_flush {window : SendingWindow (Tallied β)} {rate : UInt32}
    (h : lossRate window (.flush heading current rto maxInFlightSize) = some rate) :
    rate = (visited heading current rto maxInFlightSize window).1.lost * 100 /
      (visited heading current rto maxInFlightSize window).1.totalInFlightSize := by
  obtain ⟨cache, totalInFlightSize⟩ := window
  cases cache with
  | nil => cases h
  | cons seg rest =>
      change (if _ then some _ else none) = some rate at h
      split_ifs at h
      exact (Option.some.inj h).symm

end Flush

section Runs

/-- The counter is the number of cached segments that have been transmitted. -/
def Accounted (window : SendingWindow (Tallied β)) : Prop :=
  window.totalInFlightSize.toNat = transmitted window.cache

/-- Which calls keep the counter right: a flush that transmits no segment for more than the `2 ^ 32`-th time and
after which fewer than `2 ^ 32` have been transmitted, and a `Clear` that finds nothing to remove at the front, or
does not occur. -/
def Keeps (window : SendingWindow (Tallied β)) : Call β → Prop
  | .push _ _ => True
  | .flush _ current _ maxInFlightSize =>
      let sent := due current (max 1 maxInFlightSize.toNat) window.cache
      (∀ seg ∈ sent, seg.payload.times < 2 ^ 32) ∧
        transmitted window.cache + sent.countP (fun seg => seg.payload.times = 0) < 2 ^ 32
  | .remove _ => True
  | .clear una => (∀ seg ∈ window.cache.head?, una ≤ seg.number) ∨
      ∃ seg ∈ acknowledged window (.clear una), seg.payload.times = 0

variable {window : SendingWindow (Tallied β)}

theorem step_push (number : UInt32) (b : β) : step window (.push number b) = window.push number ⟨b, 0⟩ :=
  if_pos fun _ h => absurd h List.not_mem_nil

theorem step_flush (heading : Heading) (current rto maxInFlightSize : UInt32) :
    step window (.flush heading current rto maxInFlightSize) =
      ⟨(visited heading current rto maxInFlightSize window).2,
        (visited heading current rto maxInFlightSize window).1.totalInFlightSize⟩ := by
  have hnone : ∀ seg ∈ acknowledged window (.flush heading current rto maxInFlightSize), 0 < seg.payload.times :=
    fun _ h => absurd h List.not_mem_nil
  rw [step, if_pos hnone]
  exact flush_window heading current rto maxInFlightSize window

theorem transmitted_append (first second : List (DataSegment (Tallied β))) :
    transmitted (first ++ second) = transmitted first + transmitted second := List.countP_append

/-- A removed segment has been transmitted. -/
theorem step_remove (window : SendingWindow (Tallied β)) (number : UInt32) :
    step window (.remove number) = window ∨ ∃ seg before after, 0 < seg.payload.times ∧
      window.cache = before ++ seg :: after ∧
      step window (.remove number) = ⟨before ++ after,
        if window.totalInFlightSize > 0 then window.totalInFlightSize - 1 else window.totalInFlightSize⟩ := by
  unfold step
  by_cases hsent : ∀ seg ∈ acknowledged window (.remove number), 0 < seg.payload.times
  · rw [if_pos hsent]
    cases hremove : removeFrom number window.cache with
    | none =>
        left
        rw [apply, SendingWindow.remove, hremove]
    | some removed =>
        obtain ⟨-, before, after, hcache, hrest⟩ := removeFrom_eq_some hremove
        refine .inr ⟨removed.1, before, after, hsent removed.1 (by simp [acknowledged, hremove]), hcache, ?_⟩
        rw [apply, SendingWindow.remove, hremove, ← hrest]
  · exact .inl (if_neg hsent)

theorem accounted_remove (h : Accounted window) (number : UInt32) : Accounted (step window (.remove number)) := by
  obtain hsame | ⟨seg, before, after, htimes, hcache, hstep⟩ := step_remove window number
  · rwa [hsame]
  · have hbefore : transmitted window.cache = transmitted (before ++ after) + 1 := by
      rw [hcache, transmitted_append, transmitted_append, transmitted_cons, if_pos htimes, Nat.add_assoc]
    have hone : (1 : UInt32) ≤ window.totalInFlightSize := by
      rw [UInt32.le_iff_toNat_le, h, hbefore]
      exact Nat.le_add_left _ _
    unfold Accounted at *
    rw [hstep, if_pos (UInt32.lt_of_lt_of_le (by decide) hone)]
    dsimp only
    rw [UInt32.toNat_sub_of_le _ _ hone, h, hbefore]
    rfl

theorem acknowledged_clear_eq_nil_iff (una : UInt32) :
    acknowledged window (.clear una) = [] ↔ ∀ seg ∈ window.cache.head?, una ≤ seg.number := by
  rw [acknowledged]
  cases window.cache with
  | nil => simp
  | cons seg rest => simp [List.takeWhile_cons]

theorem accounted_clear_iff (h : Accounted window) (una : UInt32) :
    Accounted (step window (.clear una)) ↔ Keeps window (.clear una) := by
  rw [Keeps, ← acknowledged_clear_eq_nil_iff]
  unfold step
  split_ifs with hsent
  · have hsplit : acknowledged window (.clear una) ++ (window.clear una).cache = window.cache :=
      List.takeWhile_append_dropWhile
    have hall : transmitted (acknowledged window (.clear una)) = (acknowledged window (.clear una)).length :=
      List.countP_eq_length.mpr fun seg hseg => decide_eq_true (hsent seg hseg)
    have hbefore : window.totalInFlightSize.toNat =
        (acknowledged window (.clear una)).length + transmitted (window.clear una).cache := by
      rw [h, ← hall, ← transmitted_append, hsplit]
    constructor
    · intro hafter
      have hequal : window.totalInFlightSize.toNat = transmitted (window.clear una).cache := hafter
      exact .inl (List.length_eq_zero_iff.mp (by omega))
    · rintro (hnil | ⟨seg, hseg, htimes⟩)
      · rwa [hnil, List.length_nil, Nat.zero_add] at hbefore
      · exact absurd (hsent seg hseg) (by omega)
  · refine iff_of_true h (.inr ?_)
    push Not at hsent
    obtain ⟨seg, hseg, htimes⟩ := hsent
    exact ⟨seg, hseg, Nat.le_zero.mp htimes⟩

theorem accounted_flush_iff (hcounts : Counting window) (h : Accounted window) (heading : Heading)
    (current rto maxInFlightSize : UInt32) :
    Accounted (step window (.flush heading current rto maxInFlightSize)) ↔
      (∀ seg ∈ (step window (.flush heading current rto maxInFlightSize)).cache, seg.payload.times ≤ 2 ^ 32) ∧
        transmitted (step window (.flush heading current rto maxInFlightSize)).cache < 2 ^ 32 := by
  have htally := tally_visited heading current rto maxInFlightSize hcounts
  have htotal := htally.total
  have hlate := htally.late_le
  have hsize := window.totalInFlightSize.toNat_lt
  have hafter := (visited heading current rto maxInFlightSize window).1.totalInFlightSize.toNat_lt
  unfold Accounted at *
  rw [step_flush, ← late_eq_zero_iff]
  dsimp only at *
  omega

theorem counts_step (hcounts : Counting window) (h : Accounted window) (call : Call β)
    (hafter : Accounted (step window call)) : Counting (step window call) := by
  cases call with
  | push number b =>
      rw [step_push]
      intro seg hseg
      obtain hold | hnew := List.mem_append.mp hseg
      · exact hcounts seg hold
      · rw [List.mem_singleton.mp hnew]
        exact ⟨rfl, Nat.zero_le _⟩
  | flush heading current rto maxInFlightSize =>
      obtain ⟨hle, -⟩ := (accounted_flush_iff hcounts h heading current rto maxInFlightSize).mp hafter
      have htransmit := (tally_visited heading current rto maxInFlightSize hcounts).transmit
      rw [step_flush] at hle ⊢
      exact fun seg hseg => ⟨htransmit seg hseg, hle seg hseg⟩
  | remove number =>
      obtain hsame | ⟨seg, before, after, -, hcache, hstep⟩ := step_remove window number
      · rwa [hsame]
      · rw [hstep]
        intro other hother
        apply hcounts
        rw [hcache]
        exact (List.Sublist.append_left (List.sublist_cons_self seg after) before).subset hother
  | clear una =>
      unfold step
      split_ifs
      · exact fun seg hseg => hcounts seg ((List.dropWhile_suffix _).subset hseg)
      · exact hcounts

theorem accounted_step_iff (hcounts : Counting window) (h : Accounted window) (call : Call β) :
    Accounted (step window call) ↔ Keeps window call := by
  cases call with
  | push number b =>
      refine iff_of_true ?_ trivial
      rw [step_push]
      unfold Accounted SendingWindow.push at *
      rw [h, transmitted_append]
      rfl
  | flush heading current rto maxInFlightSize =>
      obtain ⟨hcount, hall⟩ := visit_due heading current rto maxInFlightSize window.cache
        { totalInFlightSize := window.totalInFlightSize } (by simp)
      have htimes : ∀ seg ∈ window.cache, seg.payload.times ≤ 2 ^ 32 := fun seg hseg => (hcounts seg hseg).le
      rw [accounted_flush_iff hcounts h, step_flush, Keeps]
      dsimp only [visited] at *
      rw [hcount, hall]
      simp only [UInt32.toNat_zero, Nat.sub_zero]
      exact and_congr_left fun _ => and_iff_right htimes
  | remove number => exact iff_of_true (accounted_remove h number) trivial
  | clear una => exact accounted_clear_iff h una

theorem lossRate_le (hcounts : Counting window) {call : Call β}
    (hafter : Accounted (step window call)) {rate : UInt32} (hrate : lossRate window call = some rate) :
    rate ≤ 100 := by
  cases call with
  | flush heading current rto maxInFlightSize =>
      have hlost := (tally_visited heading current rto maxInFlightSize hcounts).lost_le
      rw [step_flush] at hafter
      have hle : (visited heading current rto maxInFlightSize window).1.lost.toNat ≤
          (visited heading current rto maxInFlightSize window).1.totalInFlightSize.toNat :=
        hlost.trans (le_of_eq ((Nat.zero_add _).trans hafter.symm))
      rw [lossRate_flush heading current rto maxInFlightSize hrate, UInt32.le_iff_toNat_le, UInt32.toNat_div,
        UInt32.toNat_mul]
      apply Nat.div_le_of_le_mul
      exact (Nat.mod_le _ _).trans (Nat.mul_le_mul_right 100 hle)
  | push number b => cases hrate
  | remove number => cases hrate
  | clear una => cases hrate

theorem counting_of_along {calls : List (Call β)} (h : Along step Keeps {} calls) :
    Counting (run step {} calls) ∧ Accounted (run step {} calls) := by
  refine run_induction_along (P := fun window => Counting window ∧ Accounted window) ?_ calls {} ⟨?_, rfl⟩ h
  · rintro window call ⟨hcounts, haccounted⟩ hkeeps
    have hafter := (accounted_step_iff hcounts haccounted call).mpr hkeeps
    exact ⟨counts_step hcounts haccounted call hafter, hafter⟩
  · exact fun _ hseg => absurd hseg List.not_mem_nil

/-- **The counter of a window is right in a whole run exactly if its calls keep it**, and then no loss rate above
100 is passed on. -/
theorem accounted_iff (calls : List (Call β)) :
    ((∀ first, first <+: calls → Accounted (run step {} first)) ∧ ∀ first call, first ++ [call] <+: calls →
      ∀ rate, lossRate (run step {} first) call = some rate → rate ≤ 100) ↔ Along step Keeps {} calls := by
  constructor
  · rintro ⟨hall, -⟩
    refine (forall_prefix_iff_along (I := Counting) (P := Accounted) ?_ ?_ calls {} ?_ rfl).mp hall
    · exact fun window call hcounts h hafter => counts_step hcounts h call hafter
    · exact fun window call hcounts h => accounted_step_iff hcounts h call
    · exact fun _ hseg => absurd hseg List.not_mem_nil
  · intro halong
    refine ⟨fun first hfirst => (counting_of_along (halong.of_front hfirst)).2, ?_⟩
    intro first call hcall rate hrate
    obtain ⟨hcounts, -⟩ := counting_of_along (halong.of_front ((List.prefix_append _ _).trans hcall))
    have hafter := (counting_of_along (halong.of_front hcall)).2
    rw [run_append] at hafter
    exact lossRate_le hcounts hafter hrate

/-- A segment that is transmitted and acknowledged by `Clear` stays in the counter. -/
theorem not_accounted_clear :
    run step {} [.push 0 (), .flush {} 0 100 16, .clear 1] = ⟨[], 1⟩ ∧
      ¬Accounted (run step {} [.push 0 (), .flush {} 0 100 16, .clear 1]) := by
  constructor
  · decide
  · unfold Accounted
    decide

end Runs

end V2RootCore.Kcp.LossWindow
