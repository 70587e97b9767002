import V2RootCore.Pool
import V2RootCore.Task.Periodic

/-!
# One chain at a time

A chain is a timer that is armed or a goroutine that may still arm one. No step but `Start` adds a chain,
and `Start` adds one whenever the task does not run. So the task keeps to one chain exactly if `Start`
never finds a task that does not run but still has a chain.
-/

namespace V2RootCore.Task

open Pool Goroutine Transition

/-- Up to the last critical section a goroutine is part of a chain, unless `Execute` fails. -/
def Goroutine.chained (g : Goroutine) : Bool :=
  match g.place with
  | .checking | .passed | .executing | .rearming => true
  | _ => false

def Goroutine.executes (g : Goroutine) : Bool := g.place = .executing

def Timer.isArmed (timer : Timer) : Bool := timer = .armed

namespace Periodic

variable {t : Periodic}

def chains (t : Periodic) : Nat := t.goroutines.countP chained + t.timers.countP Timer.isArmed

/-- One `Execute` and one chain at a time, and none that begins after `Close`. -/
structure Orderly (t : Periodic) : Prop where
  exclusive : t.goroutines.countP executes ≤ 1
  oneChain : t.running = true → t.chains ≤ 1
  closed : t.closed = true → ∀ i caller, t.goroutines[i]? = some ⟨caller, .checking⟩ →
    (t.step (.hasClosed i)).goroutines[i]? = some ⟨caller, .ended⟩

/-- `Start` finds a task that runs or has no chain. -/
def StartsAlone (t : Periodic) : Event → Prop
  | .start => t.running = true ∨ t.chains = 0
  | _ => True

structure Sound (t : Periodic) : Prop where
  oneChain : t.chains ≤ 1
  closed : t.closed = true → t.running = false

theorem Sound.orderly (h : Sound t) : Orderly t := by
  refine ⟨?_, fun _ => h.oneChain, fun hclosed i caller hi => ?_⟩
  · have hle : t.goroutines.countP executes ≤ t.goroutines.countP chained := by
      refine List.countP_mono_left fun g _ hg => ?_
      have hplace : g.place = .executing := of_decide_eq_true hg
      simp [chained, hplace]
    have hone := h.oneChain
    unfold chains at hone
    omega
  · simp only [step, hi, h.closed hclosed, move]
    simp [(List.getElem?_eq_some_iff.mp hi).1]

/-! ### What the steps do to the number of chains -/

theorem chains_move {i : Nat} {old : Goroutine} (hi : t.goroutines[i]? = some old) (caller : Caller)
    (place : Place) :
    (t.move i caller place).chains + weight chained old =
      t.chains + weight chained ⟨caller, place⟩ := by
  have hcount := countP_set chained hi ⟨caller, place⟩
  unfold chains move
  dsimp only
  omega

theorem chains_move_le {i : Nat} {old : Goroutine} (hi : t.goroutines[i]? = some old) {caller : Caller}
    {place : Place} (hold : old.chained = true ∨ chained ⟨caller, place⟩ = false) :
    (t.move i caller place).chains ≤ t.chains := by
  have hmove := chains_move hi caller place
  obtain htrue | hfalse := hold
  · rw [weight_of_true htrue] at hmove
    unfold weight at hmove
    split at hmove <;> omega
  · rw [weight_of_false hfalse] at hmove
    omega

theorem chains_spawn (caller : Caller) : (t.spawn caller).chains = t.chains + 1 := by
  have hcount := countP_concat chained t.goroutines ⟨caller, .checking⟩
  have hweight : weight chained ⟨caller, .checking⟩ = 1 := rfl
  unfold chains spawn
  dsimp only
  omega

theorem chains_start (hrunning : t.running = false) : t.start.chains = t.chains + 1 := by
  simp only [start, hrunning, Bool.false_eq_true, if_false]
  exact chains_spawn _

theorem chains_close_le : t.close.chains ≤ t.chains := by
  unfold close
  dsimp only
  split
  · exact Nat.le_refl _
  · next id _ =>
      have hcount := countP_modify_le Timer.isArmed (f := Timer.stop)
        (fun timer => by cases timer <;> decide) t.timers id
      unfold chains
      dsimp only
      omega

theorem chains_afterFunc_le {i : Nat} {caller : Caller}
    (hi : t.goroutines[i]? = some ⟨caller, .rearming⟩) : (t.afterFunc i caller).chains ≤ t.chains := by
  have hmove := chains_move hi caller .ended
  have hrearming : weight chained ⟨caller, .rearming⟩ = 1 := rfl
  have hended : weight chained ⟨caller, .ended⟩ = 0 := rfl
  unfold afterFunc
  dsimp only
  split
  · omega
  · have hcount := countP_concat Timer.isArmed (t.move i caller .ended).timers .armed
    have harmed : weight Timer.isArmed .armed = 1 := rfl
    unfold chains at hmove ⊢
    dsimp only
    omega

theorem chains_fire_le {id : Nat} (hid : t.timers[id]? = some .armed) :
    ({ t with timers := t.timers.set id .fired }.spawn .timer).chains ≤ t.chains := by
  have hcount := countP_set Timer.isArmed hid .fired
  have harmed : weight Timer.isArmed .armed = 1 := rfl
  have hfired : weight Timer.isArmed .fired = 0 := rfl
  rw [chains_spawn]
  unfold chains
  dsimp only
  omega

theorem chains_step_le (event : Event) (hstart : event = .start → t.running = true) :
    (t.step event).chains ≤ t.chains := by
  cases event with
  | start =>
      simp only [step, start, hstart rfl, if_true]
      exact Nat.le_refl _
  | close => exact chains_close_le
  | hasClosed i =>
      simp only [step]
      split
      · next caller hi => exact chains_move_le hi (.inl rfl)
      · exact Nat.le_refl _
  | beginExecute i =>
      simp only [step]
      split
      · next caller hi => exact chains_move_le hi (.inl rfl)
      · exact Nat.le_refl _
  | endExecute i failed =>
      simp only [step]
      split
      · next caller hi => exact chains_move_le hi (.inl rfl)
      · exact Nat.le_refl _
  | afterFunc i =>
      simp only [step]
      split
      · next caller hi => exact chains_afterFunc_le hi
      · exact Nat.le_refl _
  | reset i =>
      simp only [step]
      split
      · next hi => exact chains_move_le (t := { t with running := false }) hi (.inr rfl)
      · next hi => exact chains_move_le (t := { t with running := false }) hi (.inr rfl)
      · next caller hi => exact chains_move_le (t := { t with running := false }) hi (.inr rfl)
      · exact Nat.le_refl _
  | fire id =>
      simp only [step]
      split
      · next hid => exact chains_fire_le hid
      · exact Nat.le_refl _

theorem closed_step (h : t.closed = true → t.running = false) (event : Event) :
    (t.step event).closed = true → (t.step event).running = false := by
  cases event with
  | start =>
      intro hclosed
      simp only [step, start] at hclosed
      split at hclosed <;> cases hclosed
  | close =>
      intro _
      simp only [step, close]
      split <;> rfl
  | hasClosed i =>
      simp only [step]
      split <;> exact h
  | beginExecute i =>
      simp only [step]
      split <;> exact h
  | endExecute i failed =>
      simp only [step]
      split <;> exact h
  | afterFunc i =>
      simp only [step, afterFunc]
      split
      · split <;> exact h
      · exact h
  | reset i =>
      simp only [step]
      split
      · exact fun _ => rfl
      · exact fun _ => rfl
      · exact fun _ => rfl
      · exact h
  | fire id =>
      simp only [step]
      split <;> exact h

/-! ### Runs -/

theorem orderly_step_iff (h : Sound t) (event : Event) :
    Orderly (t.step event) ↔ StartsAlone t event := by
  have hclosed := closed_step h.closed event
  by_cases hstart : event = .start → t.running = true
  · refine iff_of_true (Sound.orderly ⟨?_, hclosed⟩) ?_
    · exact (chains_step_le event hstart).trans h.oneChain
    · cases event with
      | start => exact .inl (hstart rfl)
      | _ => trivial
  · obtain ⟨rfl, hrunning⟩ := Classical.not_imp.mp hstart
    have hfalse : t.running = false := Bool.eq_false_iff.mpr hrunning
    have hchains := chains_start hfalse
    constructor
    · intro hordered
      have hruns : (t.step .start).running = true := by
        simp [step, start, spawn, hfalse]
      have hone : t.start.chains ≤ 1 := hordered.oneChain hruns
      exact .inr (by omega)
    · intro halone
      have hzero : t.chains = 0 := halone.resolve_left hrunning
      refine Sound.orderly ⟨?_, hclosed⟩
      change t.start.chains ≤ 1
      omega

theorem Sound.step (h : Sound t) {event : Event} (hordered : Orderly (t.step event)) :
    Sound (t.step event) := by
  refine ⟨?_, closed_step h.closed event⟩
  by_cases hstart : event = .start → t.running = true
  · exact (chains_step_le event hstart).trans h.oneChain
  · obtain ⟨rfl, hrunning⟩ := Classical.not_imp.mp hstart
    refine hordered.oneChain ?_
    simp [Periodic.step, start, spawn, hrunning]

theorem sound_new : Sound {} := ⟨Nat.zero_le _, fun hclosed => by cases hclosed⟩

/-- **When a periodic task is orderly.** In any interleaving, one `Execute` and one chain at a time are
kept in all states exactly if `Start` never finds a task that is not running but still has a chain. -/
theorem orderly_iff_startsAlone (events : List Event) :
    (∀ first, first <+: events → Orderly (Transition.run step {} first)) ↔
      Along step StartsAlone {} events := by
  have hinv (t : Periodic) (event : Event) (h : Sound t) (_ : Orderly t)
      (hnext : Orderly (t.step event)) : Sound (t.step event) := h.step hnext
  have hstep (t : Periodic) (event : Event) (h : Sound t) (_ : Orderly t) :
      Orderly (t.step event) ↔ StartsAlone t event := orderly_step_iff h event
  exact forall_prefix_iff_along hinv hstep events {} sound_new sound_new.orderly

/-- The task is closed during `Execute` and started again: two of them are in progress. -/
theorem not_orderly_restarted :
    ¬ ∀ first, first <+: [Event.start, .hasClosed 0, .beginExecute 0, .close, .start, .hasClosed 1,
        .beginExecute 1] → Orderly (Transition.run step {} first) := by
  intro h
  have hexclusive := (h _ List.prefix_rfl).exclusive
  revert hexclusive
  decide

end Periodic

end V2RootCore.Task
