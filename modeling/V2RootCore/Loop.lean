import Mathlib.Logic.Relation

/-!
# Loops that may fail

A loop whose body ends it with a result or an error, or goes on with another state. It is run with fuel,
and to be out of fuel is a failure as well. If something gets smaller each time and the fuel is more than
that, then the loop fails exactly if it comes to a state on which its body fails.
-/

namespace V2RootCore

variable {σ ρ ε : Type}

def loop (exhausted : ε) (body : σ → Except ε (ρ ⊕ σ)) : Nat → σ → Except ε ρ
  | 0, _ => .error exhausted
  | fuel + 1, s =>
      match body s with
      | .error err => .error err
      | .ok (.inl result) => .ok result
      | .ok (.inr s') => loop exhausted body fuel s'

/-- The loop comes to a state from another one. -/
def Reaches (body : σ → Except ε (ρ ⊕ σ)) : σ → σ → Prop :=
  Relation.ReflTransGen fun s s' => body s = .ok (.inr s')

section Loop

variable {exhausted : ε} {body : σ → Except ε (ρ ⊕ σ)}

theorem Reaches.inv (Inv : σ → Prop) (hinv : ∀ s s', Inv s → body s = .ok (.inr s') → Inv s') {s s' : σ}
    (hs : Inv s) (hreach : Reaches body s s') : Inv s' := by
  induction hreach with
  | refl => exact hs
  | tail _ hstep ih => exact hinv _ _ ih hstep

/-- **How a loop fails.** -/
theorem loop_eq_error_iff (Inv : σ → Prop) (measure : σ → Nat)
    (hstep : ∀ s s', Inv s → body s = .ok (.inr s') → Inv s' ∧ measure s' < measure s) {fuel : Nat}
    {s : σ} (hs : Inv s) (hfuel : measure s < fuel) (err : ε) :
    loop exhausted body fuel s = .error err ↔ ∃ s', Reaches body s s' ∧ body s' = .error err := by
  induction fuel generalizing s with
  | zero => exact absurd hfuel (Nat.not_lt_zero _)
  | succ fuel ih =>
      rw [loop]
      cases hbody : body s with
      | error err' =>
          refine ⟨fun herr => ⟨s, .refl, hbody.trans ?_⟩, ?_⟩
          · rw [Except.error.inj herr]
          · rintro ⟨s', hreach, herr⟩
            obtain rfl | ⟨s'', hfirst, -⟩ := hreach.cases_head
            · rw [← hbody, herr]
            · rw [hbody] at hfirst
              cases hfirst
      | ok next =>
          cases next with
          | inl result =>
              refine iff_of_false (fun herr => by cases herr) ?_
              rintro ⟨s', hreach, herr⟩
              obtain rfl | ⟨s'', hfirst, -⟩ := hreach.cases_head
              · rw [hbody] at herr
                cases herr
              · rw [hbody] at hfirst
                cases hfirst
          | inr next =>
              obtain ⟨hnext, hless⟩ := hstep s next hs hbody
              refine (ih hnext (by omega)).trans ⟨?_, ?_⟩
              · rintro ⟨s', hreach, herr⟩
                exact ⟨s', .head hbody hreach, herr⟩
              · rintro ⟨s', hreach, herr⟩
                obtain rfl | ⟨s'', hfirst, hrest⟩ := hreach.cases_head
                · rw [hbody] at herr
                  cases herr
                · obtain rfl : next = s'' := Sum.inr.inj (Except.ok.inj (hbody.symm.trans hfirst))
                  exact ⟨s', hrest, herr⟩

theorem exists_of_loop_eq_ok {fuel : Nat} {s : σ} {result : ρ}
    (hloop : loop exhausted body fuel s = .ok result) :
    ∃ s', Reaches body s s' ∧ body s' = .ok (.inl result) := by
  induction fuel generalizing s with
  | zero => cases hloop
  | succ fuel ih =>
      rw [loop] at hloop
      cases hbody : body s with
      | error err =>
          rw [hbody] at hloop
          cases hloop
      | ok next =>
          rw [hbody] at hloop
          cases next with
          | inl result' =>
              cases hloop
              exact ⟨s, .refl, hbody⟩
          | inr next =>
              obtain ⟨s', hreach, hresult⟩ := ih hloop
              exact ⟨s', .head hbody hreach, hresult⟩

end Loop

end V2RootCore
