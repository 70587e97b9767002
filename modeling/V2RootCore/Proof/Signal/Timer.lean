import V2RootCore.Pool
import V2RootCore.Signal.Timer

/-!
# The check inside `SetTimeout`

`SetTimeout` posts an update and then checks under the lock, which is in order as long as the update is
still there. The check of a task that was replaced may have taken it; then `finish` waits for the lock
that its own goroutine holds.
-/

namespace V2RootCore.Signal

open Pool Place Transition

namespace Place

/-- `finish` was called inside `SetTimeout`. -/
def finishesInside : Place → Bool
  | .entering (.check _ inside) | .consuming (.check _ inside) | .awaiting (.check _ inside)
  | .firing (.check _ inside) | .releasing (.check _ inside) => inside
  | _ => false

def finishes : Place → Bool
  | .entering _ | .consuming _ | .awaiting _ | .firing _ | .releasing _ => true
  | _ => false

/-- In the function that `once` guards. -/
def inBody : Place → Bool
  | .consuming _ | .awaiting _ | .firing _ | .releasing _ => true
  | _ => false

def isReleasing : Place → Bool
  | .releasing _ => true
  | _ => false

/-- With the lock. -/
def inSection : Place → Bool
  | .locked | .replacing | .updating _ | .starting _ | .unlocking | .firing _ | .releasing _ => true
  | .selecting _ inside | .rearming _ inside => inside
  | _ => false

end Place

namespace ActivityTimer

variable {t : ActivityTimer}

/-- No goroutine waits for the lock while it holds it, `finish` is not called inside `SetTimeout`, the
timeout comes once, and a check calls `finish` only if there was no update since the last check. -/
structure Quiet (t : ActivityTimer) : Prop where
  free : ∀ i place, t.goroutines[i]? = some place → t.mu = some i →
    place ≠ .locking ∧ ∀ origin, place ≠ .awaiting origin
  outside : ∀ place ∈ t.goroutines, place.finishesInside = false
  once : t.timeouts ≤ 1
  idle : ∀ i task inside, t.goroutines[i]? = some (.selecting task inside) →
    (t.step (.run i)).goroutines[i]? = some (.entering (.check task inside)) → t.active = false

/-- The check inside `SetTimeout` finds an update. -/
def Posted (t : ActivityTimer) : Event → Prop
  | .run i => ∀ task, t.goroutines[i]? = some (.selecting task true) → t.updated = true
  | _ => True

structure Sound (t : ActivityTimer) : Prop where
  active : t.active = t.updated
  body : t.goroutines.countP inBody = if t.once = .busy then 1 else 0
  fired : t.timeouts = t.goroutines.countP isReleasing + if t.once = .done then 1 else 0
  holder : ∀ i, t.mu = some i → ∃ place, t.goroutines[i]? = some place ∧ place.inSection = true
  outside : ∀ place ∈ t.goroutines, place.finishesInside = false

theorem step_run {i : Nat} {place : Place} (hi : t.goroutines[i]? = some place) :
    t.step (.run i) = { (t.act i place).1 with goroutines := t.goroutines.set i (t.act i place).2 } := by
  rw [step, hi]

theorem goroutine_run {i : Nat} {place : Place} (hi : t.goroutines[i]? = some place) :
    (t.step (.run i)).goroutines[i]? = some (t.act i place).2 := by
  rw [step_run hi]
  exact List.getElem?_set_self (List.getElem?_eq_some_iff.mp hi).1

theorem Sound.quiet (h : Sound t) : Quiet t := by
  refine ⟨fun i place hi hmu => ?_, h.outside, ?_, fun i task inside hi hstep => ?_⟩
  · obtain ⟨place', hplace, hsection⟩ := h.holder i hmu
    obtain rfl : place = place' := Option.some.inj (hi.symm.trans hplace)
    refine ⟨?_, ?_⟩
    · rintro rfl
      cases hsection
    · rintro origin rfl
      cases hsection
  · have hle : t.goroutines.countP isReleasing ≤ t.goroutines.countP inBody := by
      refine List.countP_mono_left fun place _ hplace => ?_
      cases place <;> first | rfl | cases hplace
    have hbody := h.body
    have hfired := h.fired
    cases honce : t.once <;> simp only [honce, reduceCtorEq, if_true, if_false] at hbody hfired <;> omega
  · by_contra hactive
    have hupdated : t.updated = true := by
      rw [← h.active]
      simpa using hactive
    rw [goroutine_run hi] at hstep
    simp [act, hupdated] at hstep

/-! ### One step of a goroutine -/

section Act

variable {i : Nat} {place : Place}

theorem closeCheckTask_eq (t : ActivityTimer) :
    t.closeCheckTask.mu = t.mu ∧ t.closeCheckTask.updated = t.updated ∧
      t.closeCheckTask.once = t.once ∧ t.closeCheckTask.timeouts = t.timeouts ∧
      t.closeCheckTask.active = t.active := by
  unfold closeCheckTask
  split <;> exact ⟨rfl, rfl, rfl, rfl, rfl⟩

theorem active_act (h : t.active = t.updated) : (t.act i place).1.active = (t.act i place).1.updated := by
  obtain ⟨-, hupdated, -, -, hactive⟩ := closeCheckTask_eq t
  cases place <;> simp only [act, update] <;> (repeat' split) <;>
    first | exact h | rfl | exact hactive.trans (h.trans hupdated.symm)

theorem inBody_afterFinish (origin : Origin) : (afterFinish origin).inBody = false := by
  cases origin <;> rfl

theorem isReleasing_afterFinish (origin : Origin) : (afterFinish origin).isReleasing = false := by
  cases origin <;> rfl

theorem act_of_not_finishes (hplace : place.finishes = false) :
    (t.act i place).1.once = t.once ∧ (t.act i place).1.timeouts = t.timeouts ∧
      (t.act i place).2.inBody = false ∧ (t.act i place).2.isReleasing = false ∧
      place.inBody = false ∧ place.isReleasing = false := by
  obtain ⟨-, -, honce, htimeouts, -⟩ := closeCheckTask_eq t
  cases place with
  | entering origin => cases hplace
  | consuming origin => cases hplace
  | awaiting origin => cases hplace
  | firing origin => cases hplace
  | releasing origin => cases hplace
  | replacing => exact ⟨honce, htimeouts, rfl, rfl, rfl, rfl⟩
  | _ =>
      refine ⟨?_, ?_, ?_, ?_, rfl, rfl⟩ <;> simp only [act, update] <;> (repeat' split) <;> rfl

/-- One step keeps both counts: `once` is busy for the goroutine in the body, and done for a timeout
whose goroutine has left it. -/
theorem once_act (hbusy : place.inBody = true → t.once = .busy) :
    (weight inBody (t.act i place).2 + (if t.once = .busy then 1 else 0) =
      weight inBody place + if (t.act i place).1.once = .busy then 1 else 0) ∧
    (t.act i place).1.timeouts + weight isReleasing place + (if t.once = .done then 1 else 0) =
      t.timeouts + weight isReleasing (t.act i place).2 +
        if (t.act i place).1.once = .done then 1 else 0 := by
  obtain ⟨-, -, honce, -, -⟩ := closeCheckTask_eq t
  cases hplace : place.finishes with
  | false =>
      obtain ⟨hsame, htimeouts, hnext, hnext', hbody, hfirst⟩ :=
        act_of_not_finishes (t := t) (i := i) hplace
      rw [hsame, htimeouts, weight_of_false hnext, weight_of_false hnext', weight_of_false hbody,
        weight_of_false hfirst]
      exact ⟨rfl, rfl⟩
  | true =>
      cases place with
      | entering origin =>
          have hbody := weight_of_false (inBody_afterFinish origin)
          have hreleasing := weight_of_false (isReleasing_afterFinish origin)
          cases h : t.once
          · simp [act, h, weight, inBody, isReleasing]
          · simp [act, h, weight, inBody, isReleasing]
          · simp only [act, h, hbody, hreleasing]
            exact ⟨rfl, rfl⟩
      | consuming origin => exact ⟨rfl, rfl⟩
      | awaiting origin =>
          simp only [act]
          split <;> exact ⟨rfl, rfl⟩
      | firing origin => simp [act, weight, inBody, isReleasing, honce]
      | releasing origin =>
          have hbody := weight_of_false (inBody_afterFinish origin)
          have hreleasing := weight_of_false (isReleasing_afterFinish origin)
          simp only [act, hbody, hreleasing, hbusy rfl]
          exact ⟨rfl, rfl⟩
      | _ => cases hplace

theorem holder_act (hholds : t.mu = some i → place.inSection = true)
    (hposted : ∀ task, place = .selecting task true → t.updated = true) {j : Nat}
    (hmu : (t.act i place).1.mu = some j) :
    (j = i → (t.act i place).2.inSection = true) ∧ (j ≠ i → t.mu = some j) := by
  obtain ⟨hclose, -, -, -, -⟩ := closeCheckTask_eq t
  -- A goroutine that keeps the lock was in the section before.
  have hkept (hold : t.mu = some j) (hnext : place.inSection = true → (t.act i place).2.inSection = true) :
      (j = i → (t.act i place).2.inSection = true) ∧ (j ≠ i → t.mu = some j) :=
    ⟨fun hj => hnext (hholds (hj ▸ hold)), fun _ => hold⟩
  cases place with
  | calling zero =>
      refine hkept ?_ fun hsection => by cases hsection
      simp only [act] at hmu
      split at hmu
      · exact hmu
      · split at hmu <;> exact hmu
  | locking =>
      simp only [act] at hmu hkept ⊢
      split at hmu
      · next hfree =>
          rw [if_pos hfree]
          exact ⟨fun _ => rfl, fun hne => absurd (Option.some.inj hmu).symm hne⟩
      · exact hkept hmu fun hsection => by cases hsection
  | locked =>
      simp only [act] at hmu hkept ⊢
      split at hmu
      · next hconsumed =>
          rw [if_pos hconsumed] at hkept ⊢
          exact hkept hmu fun _ => rfl
      · next hconsumed =>
          rw [if_neg hconsumed] at hkept ⊢
          exact hkept hmu fun _ => rfl
  | replacing => exact hkept (hclose.symm.trans hmu) fun _ => rfl
  | updating task => exact hkept hmu fun _ => rfl
  | starting task => exact hkept hmu fun _ => rfl
  | hasClosed task =>
      refine hkept ?_ fun hsection => by cases hsection
      simp only [act] at hmu
      split at hmu <;> exact hmu
  | selecting task inside =>
      refine hkept hmu fun hsection => ?_
      obtain rfl : inside = true := hsection
      simp only [act, hposted task rfl, if_true]
      rfl
  | rearming task inside =>
      refine hkept ?_ fun hsection => ?_
      · simp only [act] at hmu
        split at hmu <;> exact hmu
      · obtain rfl : inside = true := hsection
        rfl
  | unlocking => cases hmu
  | entering origin =>
      refine hkept ?_ fun hsection => by cases hsection
      simp only [act] at hmu
      split at hmu <;> exact hmu
  | consuming origin => exact hkept hmu fun hsection => by cases hsection
  | awaiting origin =>
      simp only [act] at hmu hkept ⊢
      split at hmu
      · next hfree =>
          rw [if_pos hfree]
          exact ⟨fun _ => rfl, fun hne => absurd (Option.some.inj hmu).symm hne⟩
      · exact hkept hmu fun hsection => by cases hsection
  | firing origin => exact hkept (hclose.symm.trans hmu) fun _ => rfl
  | releasing origin => cases hmu
  | ended => exact hkept hmu fun hsection => by cases hsection

theorem outside_act (houtside : place.finishesInside = false)
    (hposted : ∀ task, place = .selecting task true → t.updated = true) :
    (t.act i place).2.finishesInside = false := by
  have hafter (origin : Origin) : (afterFinish origin).finishesInside = false := by
    cases origin <;> rfl
  cases place with
  | selecting task inside =>
      simp only [act]
      split
      · rfl
      · next hnone =>
          cases inside with
          | false => rfl
          | true => exact absurd (hposted task rfl) hnone
  | entering origin =>
      simp only [act]
      split
      · cases origin <;> exact houtside
      · exact houtside
      · exact hafter origin
  | consuming origin => cases origin <;> exact houtside
  | awaiting origin =>
      simp only [act]
      split
      · cases origin <;> exact houtside
      · exact houtside
  | firing origin => cases origin <;> exact houtside
  | releasing origin => exact hafter origin
  | _ =>
      simp only [act, update]
      repeat' split
      all_goals rfl

end Act

/-! ### Runs -/

theorem Sound.run (h : Sound t) {i : Nat} {place : Place} (hi : t.goroutines[i]? = some place)
    (hposted : ∀ task, place = .selecting task true → t.updated = true) :
    Sound (t.step (.run i)) := by
  have hbusy : place.inBody = true → t.once = .busy := by
    intro hbody
    have hle := weight_le_countP inBody hi
    rw [weight_of_true hbody, h.body] at hle
    by_contra hother
    rw [if_neg hother] at hle
    omega
  have hholds : t.mu = some i → place.inSection = true := by
    intro hmu
    obtain ⟨place', hplace, hsection⟩ := h.holder i hmu
    rwa [Option.some.inj (hi.symm.trans hplace)]
  rw [step_run hi]
  refine ⟨active_act h.active, ?_, ?_, fun j hmu => ?_, fun other hother => ?_⟩
  · have hcount := countP_set inBody hi (t.act i place).2
    have hbody := h.body
    have hact := (once_act (i := i) hbusy).1
    dsimp only at hcount hact ⊢
    omega
  · have hcount := countP_set isReleasing hi (t.act i place).2
    have hfired := h.fired
    have hact := (once_act (i := i) hbusy).2
    dsimp only at hcount hact ⊢
    omega
  · obtain ⟨hself, hother⟩ := holder_act hholds hposted hmu
    by_cases hj : j = i
    · subst hj
      exact ⟨_, List.getElem?_set_self (List.getElem?_eq_some_iff.mp hi).1, hself rfl⟩
    · obtain ⟨place', hplace, hsection⟩ := h.holder j (hother hj)
      exact ⟨place', (List.getElem?_set_ne (Ne.symm hj)).trans hplace, hsection⟩
  · obtain hold | rfl := List.mem_or_eq_of_mem_set hother
    · exact h.outside other hold
    · exact outside_act (h.outside place (List.mem_of_getElem? hi)) hposted

theorem Sound.spawn (h : Sound t) {place : Place} (hbody : place.inBody = false)
    (hreleasing : place.isReleasing = false) (houtside : place.finishesInside = false)
    (tasks : List CheckTask) : Sound { t with tasks, goroutines := t.goroutines ++ [place] } := by
  refine ⟨h.active, ?_, ?_, fun i hmu => ?_, fun other hother => ?_⟩
  · dsimp only
    rw [countP_concat, weight_of_false hbody]
    exact h.body
  · dsimp only
    rw [countP_concat, weight_of_false hreleasing]
    exact h.fired
  · obtain ⟨place', hplace, hsection⟩ := h.holder i hmu
    exact ⟨place', (List.getElem?_append_left (List.getElem?_eq_some_iff.mp hplace).1).trans hplace,
      hsection⟩
  · obtain hold | hnew := List.mem_append.mp hother
    · exact h.outside other hold
    · rw [List.mem_singleton.mp hnew]
      exact houtside

theorem Sound.step (h : Sound t) {event : Event} (hposted : Posted t event) : Sound (t.step event) := by
  cases event with
  | update => exact ⟨rfl, h.body, h.fired, h.holder, h.outside⟩
  | setTimeout zero => exact h.spawn rfl rfl rfl t.tasks
  | fire task =>
      simp only [ActivityTimer.step]
      split
      · exact h.spawn rfl rfl rfl _
      · exact h
  | run i =>
      cases hi : t.goroutines[i]? with
      | none =>
          simp only [ActivityTimer.step, hi]
          exact h
      | some place =>
          refine h.run hi fun task hplace => hposted task ?_
          rw [hi, hplace]

theorem not_quiet_step {event : Event} (hposted : ¬ Posted t event) : ¬ Quiet (t.step event) := by
  cases event with
  | run i =>
      simp only [Posted, not_forall] at hposted
      obtain ⟨task, hi, hupdated⟩ := hposted
      intro hquiet
      have hplace : (t.step (.run i)).goroutines[i]? = some (.entering (.check task true)) := by
        rw [goroutine_run hi]
        simp [act, hupdated]
      have hinside := hquiet.outside _ (List.mem_of_getElem? hplace)
      cases hinside
  | _ => exact absurd trivial hposted

theorem quiet_step_iff (h : Sound t) (event : Event) : Quiet (t.step event) ↔ Posted t event :=
  ⟨fun hquiet => not_not.mp fun hposted => not_quiet_step hposted hquiet, fun hposted => (h.step hposted).quiet⟩

theorem sound_new : Sound {} := by
  refine ⟨rfl, rfl, rfl, fun i hmu => ?_, fun place hplace => ?_⟩
  · cases hmu
  · cases hplace

/-- **When the timer is quiet.** In any interleaving, the timer does not block itself and does not fire on
an active connection exactly if the check inside `SetTimeout` always finds an update. -/
theorem quiet_iff_posted (events : List Event) :
    (∀ first, first <+: events → Quiet (Transition.run step {} first)) ↔
      Along step Posted {} events := by
  have hstep (t : ActivityTimer) (event : Event) (h : Sound t) (_ : Quiet t) :
      Quiet (t.step event) ↔ Posted t event := quiet_step_iff h event
  have hinv (t : ActivityTimer) (event : Event) (h : Sound t) (_ : Quiet t)
      (hnext : Quiet (t.step event)) : Sound (t.step event) := h.step ((quiet_step_iff h event).mp hnext)
  exact forall_prefix_iff_along hinv hstep events {} sound_new sound_new.quiet

/-- A check of the first task is under way when the timeout is changed, and takes the update that was
posted for the check of the second. -/
theorem not_quiet_replaced :
    ¬ ∀ first, first <+: [Event.setTimeout false, .run 0, .run 0, .run 0, .run 0, .run 0, .run 0, .run 0,
        .run 0, .run 0, .fire 0, .run 1, .setTimeout false, .run 2, .run 2, .run 2, .run 2, .run 2, .run 1,
        .run 2, .run 2] → Quiet (Transition.run step {} first) := by
  intro h
  have houtside := (h _ List.prefix_rfl).outside
  revert houtside
  decide

end ActivityTimer

end V2RootCore.Signal
