import V2RootCore.Crypto.Rand
import V2RootCore.Proof.Go.Slices

/-!
# What is drawn between two bounds

If the distance of the bounds is an `int64` as well, then a number from the smaller bound up to the largest draw is
drawn, and each of them can be.
-/

namespace V2RootCore.Crypto

open Go

/-- Bounds whose distance does not wrap. -/
structure Drawable (low high : Int) : Prop where
  low_range : -2 ^ 63 ≤ low ∧ low < 2 ^ 63
  high_range : -2 ^ 63 ≤ high ∧ high < 2 ^ 63
  width : high - low < 2 ^ 63 ∧ low - high < 2 ^ 63

/-- The largest number that is drawn. -/
def largestBetween (low high : Int) : Int := if low = high then low else max low high - 1

theorem min_le_largestBetween (low high : Int) : min low high ≤ largestBetween low high := by
  unfold largestBetween
  split_ifs <;> omega

variable {low high : Int}

theorem randBetween_of_ne (h : Drawable low high) (hne : low ≠ high) (number : Nat) :
    randBetween low high number = .ok (min low high + number % (max low high - min low high)) := by
  obtain ⟨hlow, hhigh, hwidth⟩ := h
  have hspec : ∀ a b : Int, -2 ^ 63 ≤ a → a < b → b < 2 ^ 63 → b - a < 2 ^ 63 →
      (if int64 (b - a) ≤ 0 then .error .panicked else .ok (int64 (a + number % int64 (b - a))) :
        Except Error Int) = .ok (a + number % (b - a)) := by
    intro a b ha hab hb hdistance
    have hnonneg : 0 ≤ (number : Int) % (b - a) := Int.emod_nonneg _ (by omega)
    have hlt : (number : Int) % (b - a) < b - a := Int.emod_lt_of_pos _ (by omega)
    rw [int64_eq (x := b - a) (by omega) (by omega), if_neg (by omega), int64_eq (by omega) (by omega)]
  rw [randBetween, if_neg hne]
  split_ifs with hswap
  · rw [max_eq_left hswap.le, min_eq_right hswap.le]
    exact hspec high low hhigh.1 hswap hlow.2 hwidth.2
  · rw [max_eq_right (not_lt.mp hswap), min_eq_left (not_lt.mp hswap)]
    exact hspec low high hlow.1 (by omega) hhigh.2 hwidth.1

theorem randBetween_spec (h : Drawable low high) (number : Nat) :
    ∃ n, randBetween low high number = .ok n ∧ min low high ≤ n ∧ n ≤ largestBetween low high := by
  by_cases heq : low = high
  · refine ⟨low, by rw [randBetween, if_pos heq], min_le_left _ _, ?_⟩
    rw [largestBetween, if_pos heq]
  · have hwidth : 0 < max low high - min low high := by omega
    have hnonneg := Int.emod_nonneg (number : Int) hwidth.ne'
    have hlt := Int.emod_lt_of_pos (number : Int) hwidth
    refine ⟨_, randBetween_of_ne h heq number, by omega, ?_⟩
    rw [largestBetween, if_neg heq]
    omega

theorem randBetween_offset {n : Int} (h : Drawable low high) (hlow : min low high ≤ n)
    (hhigh : n ≤ largestBetween low high) : randBetween low high (n - min low high).toNat = .ok n := by
  unfold largestBetween at hhigh
  split_ifs at hhigh with heq
  · rw [randBetween, if_pos heq]
    exact congrArg Except.ok (by omega)
  · rw [randBetween_of_ne h heq, Int.toNat_of_nonneg (by omega), Int.emod_eq_of_lt (by omega) (by omega)]
    exact congrArg Except.ok (by omega)

end V2RootCore.Crypto
