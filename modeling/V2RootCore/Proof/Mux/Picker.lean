import V2RootCore.Mux.Picker
import Mathlib.Data.List.Basic

/-!
# The worker that is picked is the last one

The picker exchanges the worker it has found with the last one and then returns what stands at the place where it
has found it: the last one, whatever its state is. No worker is lost before it is closed.
-/

namespace V2RootCore.Mux.IncrementalWorkerPicker

open Go Transition

variable {p : IncrementalWorkerPicker} {w : Nat}

/-! ### The list of workers -/

theorem mem_swap_iff (workers : List Nat) (i j : Nat) : w ∈ swap workers i j ↔ w ∈ workers := by
  unfold swap
  split
  · next a b ha hb =>
      constructor
      · intro hmem
        obtain hmem | rfl := List.mem_or_eq_of_mem_set hmem
        · obtain hmem | rfl := List.mem_or_eq_of_mem_set hmem
          · exact hmem
          · exact List.mem_of_getElem? hb
        · exact List.mem_of_getElem? ha
      · intro hmem
        obtain ⟨k, hk⟩ := List.getElem?_of_mem hmem
        have hi : i < workers.length := (List.getElem?_eq_some_iff.mp ha).1
        have hj : j < (workers.set i b).length := by
          rw [List.length_set]
          exact (List.getElem?_eq_some_iff.mp hb).1
        by_cases hki : i = k
        · obtain rfl : a = w := by rwa [hki, hk, Option.some.injEq, eq_comm] at ha
          exact List.mem_of_getElem? (List.getElem?_set_self hj)
        · by_cases hkj : j = k
          · obtain rfl : b = w := by rwa [hkj, hk, Option.some.injEq, eq_comm] at hb
            have hplace : ((workers.set i b).set j a)[i]? = some b := by
              rw [List.getElem?_set_ne (by omega), List.getElem?_set_self hi]
            exact List.mem_of_getElem? hplace
          · have hplace : ((workers.set i b).set j a)[k]? = some w := by
              rw [List.getElem?_set_ne hkj, List.getElem?_set_ne hki, hk]
            exact List.mem_of_getElem? hplace
  · exact Iff.rfl

theorem getElem?_swap {workers : List Nat} {i j : Nat} {a : Nat} (ha : workers[i]? = some a)
    (hj : j < workers.length) : (swap workers i j)[j]? = some a := by
  have hb := List.getElem?_eq_getElem hj
  rw [swap, ha, hb]
  exact List.getElem?_set_self (by rw [List.length_set]; exact hj)

/-- **The last worker is returned.** -/
theorem pickInternal_of_available {idx : Nat} (hfound : p.findAvailable = some idx)
    (create : Except Error ClientStrategy) :
    ∃ last workers, p.workers.getLast? = some last ∧ (∀ w, w ∈ workers ↔ w ∈ p.workers) ∧
      p.pickInternal create = (.ok last, false, { p with workers }) := by
  have hidx : idx < p.workers.length := (List.findIdx?_eq_some_iff_getElem.mp hfound).1
  obtain ⟨last, hlast⟩ : ∃ last, p.workers[p.workers.length - 1]? = some last :=
    ⟨_, List.getElem?_eq_getElem (by omega)⟩
  rw [pickInternal, hfound]
  dsimp only
  by_cases hswap : 1 < p.workers.length ∧ idx ≠ p.workers.length - 1
  · rw [if_pos hswap, getElem?_swap hlast hidx]
    exact ⟨last, _, by rw [List.getLast?_eq_getElem?, hlast], fun w => mem_swap_iff _ _ _, rfl⟩
  · have heq : idx = p.workers.length - 1 := by omega
    rw [if_neg hswap, heq, hlast]
    exact ⟨last, _, by rw [List.getLast?_eq_getElem?, hlast], fun w => Iff.rfl, rfl⟩

theorem findAvailable_eq_none_iff : p.findAvailable = none ↔ ∀ w ∈ p.workers, (p.worker w).isFull = true := by
  rw [findAvailable, List.findIdx?_eq_none_iff]
  simp

theorem exists_findAvailable (h : ∃ w ∈ p.workers, (p.worker w).isFull = false) :
    ∃ idx, p.findAvailable = some idx := by
  obtain ⟨w, hmem, hfree⟩ := h
  refine Option.ne_none_iff_exists'.mp fun hnone => ?_
  have hfull := findAvailable_eq_none_iff.mp hnone w hmem
  rw [hfree] at hfull
  cases hfull

/-! ### What a call should do -/

/-- A worker that is not full is returned if there is one, and otherwise a new one, which the picker keeps. -/
structure PicksUsable (p : IncrementalWorkerPicker) (create : Except Error ClientStrategy) : Prop where
  available : (∃ w ∈ p.workers, (p.worker w).isFull = false) → ∃ w ∈ p.workers, (p.worker w).isFull = false ∧
    (p.pickInternal create).1 = .ok w ∧ (p.pickInternal create).2.1 = false ∧
      (p.pickInternal create).2.2.created = p.created
  none : (∀ w ∈ p.workers, (p.worker w).isFull = true) → ∀ strategy, create = .ok strategy →
    (p.pickInternal create).1 = .ok p.created ∧ (p.pickInternal create).2.1 = true ∧
      (p.pickInternal create).2.2.created = p.created + 1 ∧ p.created ∈ (p.pickInternal create).2.2.workers ∧
      ((p.pickInternal create).2.2.worker p.created).isFull = false

/-- The last worker is not full if any of them is not. -/
def LastFree (p : IncrementalWorkerPicker) : Prop :=
  (∃ w ∈ p.workers, (p.worker w).isFull = false) →
    ∃ last, p.workers.getLast? = some last ∧ (p.worker last).isFull = false

theorem isFull_new (strategy : ClientStrategy) : ({ strategy } : ClientWorker).isFull = false := by
  simp only [ClientWorker.isFull, ClientWorker.isClosing, Bool.or_false, Bool.or_eq_false_iff,
    decide_eq_false_iff_not, Nat.le_zero]
  have hnot (limit : UInt32) : ¬(0 < limit ∧ limit.toNat = 0) := by
    rintro ⟨hpos, hzero⟩
    exact absurd hzero (Nat.ne_of_gt (UInt32.lt_iff_toNat_lt.mp hpos))
  exact ⟨hnot _, hnot _⟩

theorem picksUsable_iff (create : Except Error ClientStrategy) : PicksUsable p create ↔ LastFree p := by
  have hnew (hfull : ∀ w ∈ p.workers, (p.worker w).isFull = true) (strategy : ClientStrategy)
      (hcreate : create = .ok strategy) :
      p.pickInternal create = (.ok p.created, true,
        { workers := p.cleanup.workers ++ [p.created]
          worker := Function.update p.worker p.created { strategy }
          created := p.created + 1 }) := by
    rw [pickInternal, findAvailable_eq_none_iff.mpr hfull, hcreate]
    rfl
  constructor
  · intro h hsome
    obtain ⟨idx, hfound⟩ := exists_findAvailable hsome
    obtain ⟨last, workers, hlast, -, hpick⟩ := pickInternal_of_available hfound create
    obtain ⟨w, -, hfree, hresult, -⟩ := h.available hsome
    rw [hpick] at hresult
    obtain rfl : last = w := Except.ok.inj hresult
    exact ⟨last, hlast, hfree⟩
  · refine fun h => ⟨fun hsome => ?_, fun hfull strategy hcreate => ?_⟩
    · obtain ⟨idx, hfound⟩ := exists_findAvailable hsome
      obtain ⟨last, workers, hlast, -, hpick⟩ := pickInternal_of_available hfound create
      obtain ⟨last', hlast', hfree⟩ := h hsome
      obtain rfl : last = last' := Option.some.inj (hlast.symm.trans hlast')
      rw [hpick]
      exact ⟨last, List.mem_of_getLast? hlast, hfree, rfl, rfl, rfl⟩
    · rw [hnew hfull strategy hcreate]
      refine ⟨rfl, rfl, rfl, List.mem_concat_self, ?_⟩
      dsimp only
      rw [Function.update_self]
      exact isFull_new strategy

/-! ### No worker is lost -/

/-- All workers of the list have been created. -/
def Valid (p : IncrementalWorkerPicker) : Prop := ∀ w ∈ p.workers, w < p.created

/-- What a call does to the workers: those that are not closed stay, and a closed one stays closed. -/
structure Keeps (p p' : IncrementalWorkerPicker) : Prop where
  valid : Valid p → Valid p'
  created : p.created ≤ p'.created
  closed : ∀ w < p.created, (p.worker w).closed = true → (p'.worker w).closed = true
  workers : ∀ w ∈ p.workers, (p.worker w).closed = false → w ∈ p'.workers

theorem keeps_cleanup (p : IncrementalWorkerPicker) : Keeps p p.cleanup where
  valid hvalid w hmem := hvalid w (List.mem_of_mem_filter hmem)
  created := Nat.le_refl _
  closed _ _ := id
  workers w hmem hopen := List.mem_filter.mpr ⟨hmem, by rw [hopen]; rfl⟩

theorem keeps_pick (p : IncrementalWorkerPicker) (create : Except Error ClientStrategy) :
    Keeps p (p.pickInternal create).2.2 := by
  cases hfound : p.findAvailable with
  | some idx =>
      obtain ⟨last, workers, -, hmem, hpick⟩ := pickInternal_of_available hfound create
      rw [hpick]
      exact ⟨fun hvalid w hw => hvalid w ((hmem w).mp hw), Nat.le_refl _, fun _ _ => id,
        fun w hw _ => (hmem w).mpr hw⟩
  | none =>
      rw [pickInternal, hfound]
      cases create with
      | error err => exact keeps_cleanup p
      | ok strategy =>
          refine ⟨fun hvalid w hw => ?_, Nat.le_succ _, fun w hw hclosed => ?_, fun w hw hopen => ?_⟩
          · obtain hold | hlast := List.mem_append.mp hw
            · exact Nat.lt_succ_of_lt ((keeps_cleanup p).valid hvalid w hold)
            · rw [List.mem_singleton.mp hlast]
              exact Nat.lt_succ_self _
          · have hne : w ≠ p.cleanup.created := Nat.ne_of_lt hw
            dsimp only
            rw [Function.update_of_ne hne]
            exact hclosed
          · exact List.mem_append_left _ ((keeps_cleanup p).workers w hw hopen)

theorem keeps_step (p : IncrementalWorkerPicker) (event : Event) : Keeps p (p.step event) := by
  cases event with
  | pick create => exact keeps_pick p create
  | cleanup =>
      rw [step, cleanupFunc]
      split_ifs
      · exact ⟨id, Nat.le_refl _, fun _ _ => id, fun _ hw _ => hw⟩
      · exact keeps_cleanup p
  | change w closed count size =>
      refine ⟨id, Nat.le_refl _, fun w' _ hclosed => ?_, fun _ hw _ => hw⟩
      dsimp only [step]
      by_cases heq : w' = w
      · subst heq
        rw [Function.update_self, hclosed]
        rfl
      · rw [Function.update_of_ne heq]
        exact hclosed

theorem valid_run (events : List Event) : Valid (run step {} events) :=
  run_induction _ (fun _ hmem => absurd hmem List.not_mem_nil)
    (fun p event hvalid => (keeps_step p event).valid hvalid) events

theorem closed_run (events : List Event) {p : IncrementalWorkerPicker} (hw : w < p.created)
    (h : (p.worker w).closed = true) : ((run step p events).worker w).closed = true := by
  induction events generalizing p with
  | nil => exact h
  | cons event events ih =>
      have hkeeps := keeps_step p event
      exact ih (Nat.lt_of_lt_of_le hw hkeeps.created) (hkeeps.closed w hw h)

theorem mem_run (events : List Event) {p : IncrementalWorkerPicker} (hvalid : Valid p) (hw : w ∈ p.workers)
    (hopen : ((run step p events).worker w).closed = false) :
    w ∈ (run step p events).workers := by
  induction events generalizing p with
  | nil => exact hw
  | cons event events ih =>
      have hkeeps := keeps_step p event
      refine ih (hkeeps.valid hvalid) (hkeeps.workers w hw (Bool.eq_false_iff.mpr fun hclosed => ?_)) hopen
      have hstill := closed_run (event :: events) (hvalid w hw) hclosed
      rw [hopen] at hstill
      cases hstill

/-- Every call picks a usable worker, and at any time a worker that was in the list is there or closed. -/
structure HandsOut (events : List Event) : Prop where
  picks : Along step (fun p event => ∀ create, event = .pick create → PicksUsable p create) {} events
  keeps : ∀ first second, first ++ second <+: events → ∀ w ∈ (run step {} first).workers,
    ((run step {} (first ++ second)).worker w).closed = false →
      w ∈ (run step {} (first ++ second)).workers

/-- **Usable workers are handed out exactly if the last one is free whenever a worker is picked and any is.** -/
theorem handsOut_iff (events : List Event) :
    HandsOut events ↔ Along step (fun p event => ∀ create, event = .pick create → LastFree p) {}
      events := by
  have hiff : Along step (fun p event => ∀ create, event = .pick create → PicksUsable p create) {}
      events ↔ Along step (fun p event => ∀ create, event = .pick create → LastFree p) {} events := by
    refine along_iff_along (I := fun _ => True) (fun _ _ _ _ => trivial) (fun p event _ => ?_) events
      _ trivial
    exact forall_congr' fun create => imp_congr_right fun _ => picksUsable_iff create
  refine ⟨fun h => hiff.mp h.picks, fun h => ⟨hiff.mpr h, fun first second _ w hw hopen => ?_⟩⟩
  rw [run_append] at hopen ⊢
  exact mem_run second (valid_run first) hw hopen

/-- The first worker is free and the second one is full: the second one is returned. -/
theorem not_handsOut_full_last :
    ¬HandsOut [.pick (.ok ⟨1, 0⟩), .change 0 false 1 1, .pick (.ok ⟨1, 0⟩), .change 1 false 1 1,
      .change 0 false 1 0, .pick (.ok ⟨1, 0⟩)] := by
  intro h
  obtain ⟨-, -, -, -, -, hpick, -⟩ := h.picks
  obtain ⟨w, -, hfree, hresult, -⟩ := (hpick _ rfl).available ⟨0, by decide, by decide⟩
  have hsecond : w = 1 := Except.ok.inj (hresult.symm.trans rfl)
  rw [hsecond] at hfree
  revert hfree
  decide

end V2RootCore.Mux.IncrementalWorkerPicker
