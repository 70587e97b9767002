import Mathlib.Tactic
import Mathlib.Data.List.Basic

/-!
# Pools

Goroutines that differ in where they are, timers that differ in whether they are armed: a list of states
in which one member at a time moves. A property that some states have is counted, and a move changes the
count by what the member was before and is afterwards.
-/

namespace V2RootCore.Pool

variable {π : Type}

/-- One or none. -/
def weight (p : π → Bool) (state : π) : Nat := if p state then 1 else 0

theorem weight_of_true {p : π → Bool} {state : π} (h : p state = true) : weight p state = 1 := if_pos h

theorem weight_of_false {p : π → Bool} {state : π} (h : p state = false) : weight p state = 0 :=
  if_neg (Bool.eq_false_iff.mp h)

/-- **A move and the count.** -/
theorem countP_set (p : π → Bool) {pool : List π} {i : Nat} {old : π} (hold : pool[i]? = some old)
    (new : π) : (pool.set i new).countP p + weight p old = pool.countP p + weight p new := by
  induction pool generalizing i with
  | nil => cases hold
  | cons head tail ih =>
      cases i with
      | zero =>
          obtain rfl : head = old := Option.some.inj hold
          simp only [List.set_cons_zero, List.countP_cons, weight]
          omega
      | succ i =>
          have htail := ih (i := i) hold
          simp only [List.set_cons_succ, List.countP_cons]
          omega

theorem countP_concat (p : π → Bool) (pool : List π) (new : π) :
    (pool ++ [new]).countP p = pool.countP p + weight p new := by
  rw [List.countP_append, List.countP_singleton, weight]

theorem weight_le_countP (p : π → Bool) {pool : List π} {i : Nat} {state : π}
    (hstate : pool[i]? = some state) : weight p state ≤ pool.countP p := by
  unfold weight
  split
  · next htrue => exact List.countP_pos_iff.mpr ⟨state, List.mem_of_getElem? hstate, htrue⟩
  · exact Nat.zero_le _

theorem countP_modify_le (p : π → Bool) {f : π → π} (hf : ∀ state, p (f state) = true → p state = true)
    (pool : List π) (i : Nat) : (pool.modify i f).countP p ≤ pool.countP p := by
  induction pool generalizing i with
  | nil => simp
  | cons head tail ih =>
      cases i with
      | zero =>
          have hhead : weight p (f head) ≤ weight p head := by
            unfold weight
            split
            · next htrue => exact Nat.le_of_eq (if_pos (hf head htrue)).symm
            · exact Nat.zero_le _
          simp only [List.modify_zero_cons, List.countP_cons, weight] at hhead ⊢
          omega
      | succ i =>
          have htail := ih i
          simp only [List.modify_succ_cons, List.countP_cons]
          omega

end V2RootCore.Pool
