import Mathlib.Data.List.Infix

/-!
# Runs of a state machine

A deterministic step function on states and events. What an interleaving may do is left to the choice
of the events; an event that is not possible in a state leaves it as it is.
-/

namespace V2RootCore.Transition

variable {σ ε : Type} (step : σ → ε → σ)

def run (st : σ) (events : List ε) : σ := events.foldl step st

@[simp]
theorem run_nil (st : σ) : run step st [] = st := rfl

@[simp]
theorem run_cons (st : σ) (event : ε) (events : List ε) :
    run step st (event :: events) = run step (step st event) events := rfl

theorem run_append (st : σ) (first second : List ε) :
    run step st (first ++ second) = run step (run step st first) second :=
  List.foldl_append

/-- Every step of a run meets a condition on the state it starts from and the event. -/
def Along (condition : σ → ε → Prop) : σ → List ε → Prop
  | _, [] => True
  | st, event :: events => condition st event ∧ Along condition (step st event) events

instance (condition : σ → ε → Prop) [∀ st event, Decidable (condition st event)] :
    ∀ st events, Decidable (Along step condition st events)
  | _, [] => inferInstanceAs (Decidable True)
  | st, event :: events =>
      have := instDecidableAlong condition (step st event) events
      inferInstanceAs (Decidable (condition st event ∧ Along step condition (step st event) events))

variable {step} {condition : σ → ε → Prop}

theorem run_induction_along {P : σ → Prop}
    (hstep : ∀ st event, P st → condition st event → P (step st event)) (events : List ε) (st : σ)
    (hstart : P st) (hevents : Along step condition st events) :
    P (run step st events) := by
  induction events generalizing st with
  | nil => exact hstart
  | cons event events ih => exact ih _ (hstep st event hstart hevents.1) hevents.2

theorem Along.of_front {st : σ} {first events : List ε} (h : Along step condition st events)
    (hfirst : first <+: events) : Along step condition st first := by
  induction events generalizing st first with
  | nil =>
      rw [List.prefix_nil.mp hfirst]
      trivial
  | cons event events ih =>
      cases first with
      | nil => trivial
      | cons head tail =>
          obtain ⟨rfl, htail⟩ := List.cons_prefix_cons.mp hfirst
          exact ⟨h.1, ih h.2 htail⟩

theorem along_of_forall (h : ∀ st event, condition st event) (st : σ) (events : List ε) :
    Along step condition st events := by
  induction events generalizing st with
  | nil => trivial
  | cons event events ih => exact ⟨h st event, ih _⟩

theorem Along.and_events {P : ε → Prop} {st : σ} {events : List ε}
    (h : Along step condition st events) (hevents : ∀ event ∈ events, P event) :
    Along step (fun st event => condition st event ∧ P event) st events := by
  induction events generalizing st with
  | nil => trivial
  | cons event events ih =>
      obtain ⟨hevent, hrest⟩ := List.forall_mem_cons.mp hevents
      exact ⟨⟨h.1, hevent⟩, ih h.2 hrest⟩

theorem run_induction {P : σ → Prop} (st : σ) (hstart : P st)
    (hstep : ∀ st event, P st → P (step st event)) (events : List ε) : P (run step st events) := by
  have hevents : Along step (fun _ _ => True) st events :=
    along_of_forall (fun _ _ => trivial) st events
  exact run_induction_along (fun st event h _ => hstep st event h) events st hstart hevents

theorem run_induction_events {P : σ → Prop} {Q : ε → Prop}
    (hstep : ∀ st event, P st → Q event → P (step st event)) (events : List ε) (st : σ) (hstart : P st)
    (hevents : ∀ event ∈ events, Q event) : P (run step st events) := by
  have halong : Along step (fun _ _ => True) st events := along_of_forall (fun _ _ => trivial) st events
  exact run_induction_along (fun st event h hevent => hstep st event h hevent.2) events st hstart
    (halong.and_events hevents)

/-- **A property of all states of a run as a condition on its steps.** If an invariant makes the
condition say exactly that the next step keeps the property, then all states of a run have it exactly
if all steps meet the condition. -/
theorem forall_prefix_iff_along {I P : σ → Prop}
    (hinv : ∀ st event, I st → P st → P (step st event) → I (step st event))
    (hstep : ∀ st event, I st → P st → (P (step st event) ↔ condition st event)) (events : List ε)
    (st : σ) (hstart : I st) (hproperty : P st) :
    (∀ first, first <+: events → P (run step st first)) ↔ Along step condition st events := by
  induction events generalizing st with
  | nil =>
      refine iff_of_true (fun first hfirst => ?_) trivial
      rw [List.prefix_nil.mp hfirst]
      exact hproperty
  | cons event events ih =>
      have hnext := hinv st event hstart hproperty
      constructor
      · intro hall
        have hfirst : P (step st event) := hall [event] (by simp)
        refine ⟨(hstep st event hstart hproperty).mp hfirst, (ih _ (hnext hfirst) hfirst).mp ?_⟩
        intro first hprefix
        exact hall (event :: first) (List.cons_prefix_cons.mpr ⟨rfl, hprefix⟩)
      · rintro ⟨hcondition, halong⟩ first hprefix
        have hfirst := (hstep st event hstart hproperty).mpr hcondition
        cases first with
        | nil => exact hproperty
        | cons head tail =>
            obtain ⟨rfl, htail⟩ := List.cons_prefix_cons.mp hprefix
            exact (ih _ (hnext hfirst) hfirst).mpr halong tail htail

theorem Along.imp {I : σ → Prop} {condition condition' : σ → ε → Prop}
    (hinv : ∀ st event, I st → I (step st event))
    (himp : ∀ st event, I st → condition st event → condition' st event) {st : σ} {events : List ε}
    (h : Along step condition st events) (hstart : I st) : Along step condition' st events := by
  induction events generalizing st with
  | nil => trivial
  | cons event events ih => exact ⟨himp st event hstart h.1, ih h.2 (hinv st event hstart)⟩

theorem along_iff_along {I : σ → Prop} {condition condition' : σ → ε → Prop}
    (hinv : ∀ st event, I st → condition st event → I (step st event))
    (hiff : ∀ st event, I st → (condition st event ↔ condition' st event))
    (events : List ε) (st : σ) (hstart : I st) :
    Along step condition st events ↔ Along step condition' st events := by
  induction events generalizing st with
  | nil => exact Iff.rfl
  | cons event events ih =>
      rw [Along, Along, ← hiff st event hstart]
      refine and_congr_right fun hcondition => ?_
      exact ih _ (hinv st event hstart hcondition)

end V2RootCore.Transition
