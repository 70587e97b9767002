import V2RootCore.Library.Lifecycle

/-!
# Instances that are lost

An instance that was created and not closed should be the one in `server`, so that `Stop` can close
it. A goroutine that fails resets `server` without closing anything, and without asking whose
instance it holds.
-/

namespace V2RootCore.Library

open Go Transition

/-- The server is running if there is one, and no other instance is open. -/
structure NoOrphan (st : State) : Prop where
  running : st.serverStatus = .running ↔ st.server.isSome
  held : ∀ srv < st.created, srv ∉ st.closed → st.server = some srv

instance (st : State) : Decidable (NoOrphan st) :=
  decidable_of_iff ((st.serverStatus = .running ↔ st.server.isSome) ∧
      ∀ srv < st.created, srv ∉ st.closed → st.server = some srv)
    ⟨fun h => ⟨h.1, h.2⟩, fun h => ⟨h.running, h.held⟩⟩

/-- A goroutine fails only when there is no server. -/
def FailsIdle (st : State) : Event → Prop
  | .finish srv (.error _) => srv ∈ st.goroutines → st.server = none
  | _ => True

/-! ### Instances -/

structure WellNumbered (st : State) : Prop where
  closed : ∀ srv ∈ st.closed, srv < st.created
  server : ∀ srv ∈ st.server, srv < st.created ∧ srv ∉ st.closed

theorem wellNumbered_new : WellNumbered {} := ⟨by simp, by simp⟩

section Steps

variable {st : State}

theorem start_cases (load new : Except Bytes Unit) (st : State) :
    (start load new st).1 = st ∧ st.server.isSome ∧ st.serverStatus = .running ∨
      ¬ (st.server.isSome ∧ st.serverStatus = .running) ∧
        ((start load new st).1 = { st with serverStatus := .stopped } ∨
          (start load new st).1 = { st with
            server := some st.created
            done := some st.created
            serverStatus := .running
            created := st.created + 1
            goroutines := st.created :: st.goroutines }) := by
  have hprefix : hasPrefix st.serverStatus.text (ascii "RUNNING") = true ↔
      st.serverStatus = .running := by
    cases st.serverStatus <;> decide
  unfold start
  split
  · rename_i hrunning
    exact Or.inl ⟨rfl, hrunning.1, hprefix.mp hrunning.2⟩
  · rename_i hrunning
    refine Or.inr ⟨fun h => hrunning ⟨h.1, hprefix.mpr h.2⟩, ?_⟩
    split
    · exact Or.inl rfl
    · split
      · exact Or.inl rfl
      · exact Or.inr rfl

theorem stop_cases (close : Except Bytes Unit) (st : State) :
    st.server = none ∧ (stop close st).1 = { st with serverStatus := .stopped } ∨
      ∃ srv, st.server = some srv ∧ (stop close st).1 = { st with
        server := none, done := none, serverStatus := .stopped, closed := srv :: st.closed } := by
  unfold stop
  cases hserver : st.server with
  | none => exact Or.inl ⟨rfl, rfl⟩
  | some srv =>
      refine Or.inr ⟨srv, rfl, ?_⟩
      cases close <;> rfl

theorem finish_cases (srv : Instance) (result : Except Bytes Unit) (st : State) :
    finish srv result st = st ∧ srv ∉ st.goroutines ∨
      srv ∈ st.goroutines ∧
        (result = .ok () ∧
            finish srv result st = { st with goroutines := st.goroutines.erase srv } ∨
          (∃ text, result = .error text) ∧ finish srv result st = { st with
            server := none
            serverStatus := .stopped
            goroutines := st.goroutines.erase srv }) := by
  unfold finish
  split
  · rename_i hmem
    refine Or.inr ⟨hmem, ?_⟩
    cases result with
    | error text => exact Or.inr ⟨⟨text, rfl⟩, rfl⟩
    | ok value => exact Or.inl ⟨rfl, rfl⟩
  · rename_i hmem
    exact Or.inl ⟨rfl, hmem⟩

theorem wellNumbered_step (h : WellNumbered st) (event : Event) : WellNumbered (step st event) := by
  cases event with
  | start load new =>
      obtain ⟨heq, -⟩ | ⟨-, heq | heq⟩ := start_cases load new st
      · rw [step, heq]
        exact h
      · rw [step, heq]
        exact ⟨h.closed, h.server⟩
      · rw [step, heq]
        refine ⟨fun srv hsrv => Nat.lt_succ_of_lt (h.closed srv hsrv), ?_⟩
        rintro srv ⟨⟩
        exact ⟨Nat.lt_succ_self _, fun hmem => Nat.lt_irrefl _ (h.closed _ hmem)⟩
  | stop close =>
      obtain ⟨hserver, heq⟩ | ⟨srv, hserver, heq⟩ := stop_cases close st
      · rw [step, heq]
        exact ⟨h.closed, h.server⟩
      · rw [step, heq]
        refine ⟨?_, by simp⟩
        intro other hother
        rcases List.mem_cons.mp hother with rfl | hother
        · exact (h.server other hserver).1
        · exact h.closed other hother
  | finish srv result =>
      obtain ⟨heq, -⟩ | ⟨-, ⟨-, heq⟩ | ⟨-, heq⟩⟩ := finish_cases srv result st
      · rw [step, heq]
        exact h
      · rw [step, heq]
        exact ⟨h.closed, h.server⟩
      · rw [step, heq]
        exact ⟨h.closed, by simp⟩

theorem noOrphan_step_iff (hnumbered : WellNumbered st) (h : NoOrphan st) (event : Event) :
    NoOrphan (step st event) ↔ FailsIdle st event := by
  cases event with
  | start load new =>
      refine iff_of_true ?_ trivial
      obtain ⟨heq, -⟩ | ⟨hstopped, heq⟩ := start_cases load new st
      · rw [step, heq]
        exact h
      have hnone : st.server = none := by
        rw [h.running, and_self, Option.isSome_iff_ne_none, not_not] at hstopped
        exact hstopped
      have hclosed : ∀ srv < st.created, srv ∈ st.closed := by
        intro srv hsrv
        by_contra hopen
        rw [h.held srv hsrv hopen] at hnone
        cases hnone
      rcases heq with heq | heq
      · rw [step, heq]
        exact ⟨by simp [hnone], h.held⟩
      · rw [step, heq]
        refine ⟨by simp, fun srv hsrv hopen => ?_⟩
        rcases Nat.lt_succ_iff_lt_or_eq.mp hsrv with hold | rfl
        · exact absurd (hclosed srv hold) hopen
        · rfl
  | stop close =>
      refine iff_of_true ?_ trivial
      obtain ⟨hserver, heq⟩ | ⟨srv, hserver, heq⟩ := stop_cases close st
      · rw [step, heq]
        exact ⟨by simp [hserver], h.held⟩
      · rw [step, heq]
        refine ⟨by simp, fun other hother hopen => ?_⟩
        rw [List.mem_cons, not_or] at hopen
        have hheld := h.held other hother hopen.2
        rw [hserver] at hheld
        exact absurd (Option.some.inj hheld).symm hopen.1
  | finish srv result =>
      obtain ⟨heq, hmem⟩ | ⟨hmem, ⟨rfl, heq⟩ | ⟨⟨text, rfl⟩, heq⟩⟩ := finish_cases srv result st
      · rw [step, heq]
        refine iff_of_true h ?_
        cases result with
        | error text => exact fun hmem' => absurd hmem' hmem
        | ok value => trivial
      · rw [step, heq]
        exact iff_of_true ⟨h.running, h.held⟩ trivial
      · rw [step, heq]
        constructor
        · intro hafter _
          by_contra hsome
          obtain ⟨held, hheld⟩ := Option.ne_none_iff_exists'.mp hsome
          obtain ⟨hcreated, hopen⟩ := hnumbered.server held hheld
          exact absurd (hafter.held held hcreated hopen) (by simp)
        · intro hidle
          exact ⟨by simp, fun other hother hopen => hidle hmem ▸ h.held other hother hopen⟩

end Steps

/-- **No instance is orphaned exactly if goroutines fail only when there is no server**, in any
interleaving of `Start`, `Stop` and the goroutines they leave behind. -/
theorem noOrphan_iff_failsIdle (events : List Event) :
    (∀ first, first <+: events → NoOrphan (Transition.run step {} first)) ↔
      Along step FailsIdle {} events := by
  have hinv : ∀ st event, WellNumbered st → NoOrphan st → NoOrphan (step st event) →
      WellNumbered (step st event) :=
    fun _ event hnumbered _ _ => wellNumbered_step hnumbered event
  have hstep : ∀ st event, WellNumbered st → NoOrphan st →
      (NoOrphan (step st event) ↔ FailsIdle st event) :=
    fun _ event hnumbered h => noOrphan_step_iff hnumbered h event
  exact forall_prefix_iff_along hinv hstep events {} wellNumbered_new
    ⟨by simp, by simp⟩

def lateFailure : List Event :=
  [.start (.ok ()) (.ok ()), .stop (.ok ()), .start (.ok ()) (.ok ()), .finish 0 (.error []),
    .start (.ok ()) (.ok ())]

/-- A second instance runs beside one that is still open and out of reach. -/
theorem instance_orphaned :
    let st := Transition.run step {} lateFailure
    st.server = some 2 ∧ 1 ∈ st.goroutines ∧ 1 < st.created ∧ 1 ∉ st.closed ∧ ¬ NoOrphan st := by
  decide

end V2RootCore.Library
