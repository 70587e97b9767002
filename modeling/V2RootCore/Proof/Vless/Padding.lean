import V2RootCore.Vless.Padding
import V2RootCore.Proof.Crypto.Rand

/-!
# Which accepted paddings are sendable

The fields of a padding have no sign, so every draw is defined and at least zero. What is not bounded is the sum:
it is taken in an `int` before it is checked, and the check passes also when it has wrapped.
-/

namespace V2RootCore.Vless

open Go Crypto

section Parse

theorem not_mem_of_mem_splitOn (c : UInt8) {s piece : Bytes} (hpiece : piece ∈ s.splitOn c) : c ∉ piece := by
  induction s generalizing piece with
  | nil =>
      rw [List.splitOn_nil] at hpiece
      rw [List.mem_singleton.mp hpiece]
      exact List.not_mem_nil
  | cons d s ih =>
      rw [List.splitOn_cons_eq_if_modifyHead] at hpiece
      split at hpiece
      · obtain rfl | hrest := List.mem_cons.mp hpiece
        · exact List.not_mem_nil
        · exact ih hrest
      · next hother =>
          match hpieces : s.splitOn c with
          | [] => exact absurd hpieces (List.splitOn_ne_nil c s)
          | first :: rest =>
              rw [hpieces] at hpiece ih
              obtain rfl | hrest := List.mem_cons.mp hpiece
              · rintro hmem
                obtain rfl | htail := List.mem_cons.mp hmem
                · exact hother BEq.rfl
                · exact ih List.mem_cons_self htail
              · exact ih (List.mem_cons_of_mem _ hrest)

/-- A number without a minus sign is not negative. -/
theorem atoi_range {s : Bytes} {n : Int} (hsign : 45 ∉ s) (hs : atoi s = .ok n) : 0 ≤ n ∧ n < 2 ^ 63 := by
  have hunsigned : ∃ digits, magnitude false digits = .ok n := by
    unfold atoi at hs
    split at hs
    · exact absurd List.mem_cons_self hsign
    · exact ⟨_, hs⟩
    · exact ⟨_, hs⟩
  obtain ⟨digits, hok⟩ := hunsigned
  simp only [magnitude, Bool.false_eq_true, if_false] at hok
  split_ifs at hok with hdigits hsmall
  obtain rfl := Except.ok.inj hok
  exact ⟨Int.natCast_nonneg _, by exact_mod_cast hsmall⟩

/-- The bounds of a field that was read from a string. -/
structure PaddingField.Bounded (y : PaddingField) : Prop where
  chance : 0 ≤ y.chance
  low : 0 ≤ y.low ∧ y.low < 2 ^ 63
  high : 0 ≤ y.high ∧ y.high < 2 ^ 63

theorem PaddingField.bounded_ofString {s : Bytes} {y : PaddingField} (hs : ofString s = .ok y) : y.Bounded := by
  unfold ofString at hs
  split at hs
  · next x₀ x₁ x₂ rest hpieces =>
      have hsign : ∀ x ∈ x₀ :: x₁ :: x₂ :: rest, 45 ∉ x := fun x hx =>
        not_mem_of_mem_splitOn 45 (hpieces ▸ hx)
      split at hs
      · cases hs
      · split at hs
        · next chance low high hchance hlow hhigh =>
            obtain rfl := Except.ok.inj hs
            exact ⟨(atoi_range (hsign x₀ (by simp)) hchance).1, atoi_range (hsign x₁ (by simp)) hlow,
              atoi_range (hsign x₂ (by simp)) hhigh⟩
        · cases hs
        · cases hs
        · cases hs
  · cases hs

/-- What `ParsePadding` guarantees of the lists. -/
structure Paddings.Parsed (p : Paddings) : Prop where
  lens : ∀ y ∈ p.lens, y.Bounded
  gaps : ∀ y ∈ p.gaps, y.Bounded
  first : ∀ y, p.lens.head? = some y → 100 ≤ y.chance ∧ 35 ≤ y.low ∧ 35 ≤ y.high

theorem Paddings.Parsed.add {p p' : Paddings} {i : Nat} {s : Bytes} (h : p.Parsed)
    (hfirst : i ≠ 0 → p.lens ≠ []) (hadd : p.add i s = .ok p') : p'.Parsed ∧ p'.lens ≠ [] := by
  unfold Paddings.add at hadd
  split at hadd
  · cases hadd
  · next y hy =>
      have hbounded := PaddingField.bounded_ofString hy
      have hall : ∀ fields : List PaddingField, (∀ z ∈ fields, z.Bounded) → ∀ z ∈ fields ++ [y], z.Bounded :=
        fun fields hfields => List.forall_mem_append.mpr ⟨hfields, List.forall_mem_singleton.mpr hbounded⟩
      split at hadd
      · cases hadd
      · next hlarge =>
          split at hadd
          · obtain rfl := Except.ok.inj hadd
            refine ⟨⟨hall _ h.lens, h.gaps, ?_⟩, by simp⟩
            intro z hz
            by_cases hnil : p.lens = []
            · have hzero : i = 0 := not_imp_not.mp hfirst hnil
              rw [hnil] at hz
              obtain rfl : y = z := Option.some.inj hz
              simp only [hzero, true_and, not_or, not_lt] at hlarge
              exact ⟨hlarge.1, hlarge.2.1, hlarge.2.2⟩
            · rw [List.head?_append_of_ne_nil _ hnil] at hz
              exact h.first z hz
          · next hodd =>
              obtain rfl := Except.ok.inj hadd
              exact ⟨⟨h.lens, hall _ h.gaps, h.first⟩, hfirst (by rintro rfl; exact hodd rfl)⟩

theorem Paddings.Parsed.addAll {fields : List Bytes} {p p' : Paddings} {i : Nat} (h : p.Parsed)
    (hfirst : i ≠ 0 → p.lens ≠ []) (hadd : Paddings.addAll i fields p = .ok p') : p'.Parsed := by
  induction fields generalizing p i with
  | nil =>
      obtain rfl := Except.ok.inj hadd
      exact h
  | cons s fields ih =>
      rw [Paddings.addAll] at hadd
      obtain ⟨next, hnext, hrest⟩ := bind_eq_ok.mp hadd
      obtain ⟨hparsed, hne⟩ := h.add hfirst hnext
      exact ih hparsed (fun _ => hne) hrest

theorem parsed_of_parsePadding {padding : Bytes} {p : Paddings} (hparse : parsePadding padding = .ok p) :
    p.Parsed := by
  have hempty : ({} : Paddings).Parsed := ⟨List.forall_mem_nil _, List.forall_mem_nil _, nofun⟩
  unfold parsePadding at hparse
  split at hparse
  · obtain rfl := Except.ok.inj hparse
    exact hempty
  · obtain ⟨all, hall, hrest⟩ := bind_eq_ok.mp hparse
    split at hrest
    · cases hrest
    · obtain rfl := Except.ok.inj hrest
      exact hempty.addAll (fun h => absurd rfl h) hall

end Parse

namespace PaddingField

/-- The largest length that is drawn for a field. -/
def largest (y : PaddingField) : Int := largestBetween y.low y.high

variable {y : PaddingField}

theorem Bounded.drawable (h : y.Bounded) : Drawable y.low y.high := by
  obtain ⟨hlow, hlow'⟩ := h.low
  obtain ⟨hhigh, hhigh'⟩ := h.high
  exact ⟨by omega, by omega, by omega⟩

theorem drawable_chance : Drawable 0 100 := ⟨by decide, by decide, by decide⟩

theorem draw_spec (h : y.Bounded) (drawn : PaddingDraw) :
    ∃ l, y.draw drawn = .ok l ∧ 0 ≤ l ∧ l ≤ y.largest ∧ (100 ≤ y.chance → min y.low y.high ≤ l) := by
  obtain ⟨c, hc, -, hsmall⟩ := randBetween_spec drawable_chance drawn.chance
  obtain ⟨l, hl, hge, hle⟩ := randBetween_spec h.drawable drawn.length
  have hmin : 0 ≤ min y.low y.high := le_min h.low.1 h.high.1
  have hlargest : largestBetween 0 100 = 99 := by decide
  rw [draw, hc, ok_bind]
  by_cases hdraws : y.chance ≥ c
  · rw [if_pos hdraws, hl]
    exact ⟨l, rfl, hmin.trans hge, hle, fun _ => hge⟩
  · rw [if_neg hdraws]
    exact ⟨0, rfl, le_rfl, hmin.trans (hge.trans hle), fun hcertain => absurd (hsmall.trans (by omega)) hdraws⟩

/-- The draw that gives the largest length. -/
def largestDraw (y : PaddingField) : PaddingDraw := ⟨0, (largestBetween y.low y.high - min y.low y.high).toNat⟩

theorem draw_largestDraw (h : y.Bounded) : y.draw y.largestDraw = .ok y.largest := by
  have hchance : randBetween 0 100 0 = .ok 0 := by
    rw [randBetween_of_ne drawable_chance (by decide)]
    rfl
  have hlargest : randBetween y.low y.high y.largestDraw.length = .ok y.largest :=
    randBetween_offset h.drawable (min_le_largestBetween _ _) le_rfl
  rw [draw, show y.largestDraw.chance = 0 from rfl, hchance, ok_bind, if_pos h.chance]
  exact hlargest

end PaddingField

section Lists

variable {fields : List PaddingField}

/-- The sum of the largest lengths of the fields. -/
def largestTotal (fields : List PaddingField) : Int := (fields.map PaddingField.largest).sum

theorem drawFields_spec (hfields : ∀ y ∈ fields, y.Bounded) (drawn : Nat → PaddingDraw) (i : Nat) :
    ∃ lens, drawFields drawn i fields = .ok lens ∧ (∀ l ∈ lens, 0 ≤ l) ∧ lens.sum ≤ largestTotal fields ∧
      ∀ y, fields.head? = some y → 100 ≤ y.chance →
        ∃ first rest, lens = first :: rest ∧ min y.low y.high ≤ first := by
  induction fields generalizing i with
  | nil => exact ⟨[], rfl, List.forall_mem_nil _, le_rfl, nofun⟩
  | cons y fields ih =>
      obtain ⟨hy, hrest⟩ := List.forall_mem_cons.mp hfields
      obtain ⟨l, hl, hnonneg, hle, hcertain⟩ := PaddingField.draw_spec hy (drawn i)
      obtain ⟨lens, hlens, hpositive, hsum, -⟩ := ih hrest (i + 1)
      refine ⟨l :: lens, ?_, List.forall_mem_cons.mpr ⟨hnonneg, hpositive⟩, ?_, ?_⟩
      · rw [drawFields, hl, ok_bind, hlens]
        rfl
      · rw [largestTotal, List.map_cons, List.sum_cons, List.sum_cons]
        exact add_le_add hle hsum
      · intro z hz hchance
        obtain rfl : y = z := Option.some.inj hz
        exact ⟨l, lens, rfl, hcertain hchance⟩

theorem drawFields_largest (before : List PaddingField) {after : List PaddingField}
    (hfields : ∀ y ∈ after, y.Bounded) :
    drawFields (fun i => ((before ++ after).getD i ⟨0, 0, 0⟩).largestDraw) before.length after =
      .ok (after.map PaddingField.largest) := by
  induction after generalizing before with
  | nil => rfl
  | cons y after ih =>
      obtain ⟨hy, hrest⟩ := List.forall_mem_cons.mp hfields
      have hnext := ih (before ++ [y]) hrest
      rw [List.append_assoc, List.singleton_append, List.length_append, List.length_singleton] at hnext
      have hget : (before ++ y :: after).getD before.length ⟨0, 0, 0⟩ = y := by
        rw [List.getD_eq_getElem?_getD, List.getElem?_append_right le_rfl, Nat.sub_self]
        rfl
      rw [drawFields, hget, PaddingField.draw_largestDraw hy, ok_bind, hnext]
      rfl

/-- Without a wrap the length is the sum. -/
theorem foldl_int64_eq {lens : List Int} (hpositive : ∀ l ∈ lens, 0 ≤ l) {start : Int} (hstart : 0 ≤ start)
    (hsmall : start + lens.sum < 2 ^ 63) :
    lens.foldl (fun length l => int64 (length + l)) start = start + lens.sum := by
  induction lens generalizing start with
  | nil => simp
  | cons l lens ih =>
      obtain ⟨hl, hrest⟩ := List.forall_mem_cons.mp hpositive
      have hsum := List.sum_nonneg hrest
      rw [List.sum_cons] at hsmall ⊢
      rw [List.foldl_cons, int64_eq (by omega) (by omega), ih hrest (by omega) (by omega)]
      omega

end Lists

/-- Whatever is drawn, the padding can be sent. -/
def Sendable (p : Paddings) : Prop :=
  ∀ drawnLens drawnGaps, ∃ created, creatPadding p drawnLens drawnGaps = .ok created ∧
    (∃ first rest, created.lens = first :: rest ∧ 35 ≤ first ∧ first ≤ 65553) ∧
    (∀ l ∈ created.lens, 0 ≤ l) ∧ created.length = created.lens.sum ∧ created.length ≤ 65553

/-- The lists that are drawn from are bounded, and the first length is drawn for sure. -/
theorem Paddings.Parsed.orDefault {p : Paddings} (h : p.Parsed) :
    p.orDefault.Parsed ∧ ∃ y, p.orDefault.lens.head? = some y := by
  unfold Paddings.orDefault
  split
  · refine ⟨⟨?_, ?_, ?_⟩, _, rfl⟩
    · exact List.forall_mem_cons.mpr ⟨⟨by decide, by decide, by decide⟩,
        List.forall_mem_singleton.mpr ⟨by decide, by decide, by decide⟩⟩
    · exact List.forall_mem_singleton.mpr ⟨by decide, by decide, by decide⟩
    · intro y hy
      obtain rfl := Option.some.inj hy
      decide
  · next hne => exact ⟨h, p.lens.head hne, List.head?_eq_some_head hne⟩

/-- **An accepted padding can be sent whatever is drawn exactly when the largest lengths add up to at most
65553.** -/
theorem sendable_iff {padding : Bytes} {p : Paddings} (hparse : parsePadding padding = .ok p) :
    Sendable p ↔ largestTotal p.orDefault.lens ≤ 65553 := by
  obtain ⟨hparsed, y, hy⟩ := (parsed_of_parsePadding hparse).orDefault
  constructor
  · intro hsendable
    obtain ⟨created, hcreated, -, -, hlength, hle⟩ := hsendable
      (fun i => (p.orDefault.lens.getD i ⟨0, 0, 0⟩).largestDraw) fun _ => ⟨0, 0⟩
    obtain ⟨gaps, hgaps, -⟩ := drawFields_spec hparsed.gaps (fun _ => ⟨0, 0⟩) 0
    have hlens : drawFields (fun i => (p.orDefault.lens.getD i ⟨0, 0, 0⟩).largestDraw) 0 p.orDefault.lens =
        .ok (p.orDefault.lens.map PaddingField.largest) := drawFields_largest [] hparsed.lens
    rw [creatPadding, hlens, ok_bind, hgaps, ok_bind] at hcreated
    obtain rfl := Except.ok.inj hcreated
    exact hlength.symm.trans_le hle
  · intro htotal drawnLens drawnGaps
    obtain ⟨lens, hlens, hpositive, hsum, hfirst⟩ := drawFields_spec hparsed.lens drawnLens 0
    obtain ⟨gaps, hgaps, -⟩ := drawFields_spec hparsed.gaps drawnGaps 0
    have hlength := foldl_int64_eq hpositive le_rfl (by omega)
    rw [zero_add] at hlength
    obtain ⟨hchance, hlow, hhigh⟩ := hparsed.first y hy
    obtain ⟨first, rest, rfl, hge⟩ := hfirst y hy hchance
    refine ⟨_, by rw [creatPadding, hlens, ok_bind, hgaps]; rfl, ⟨first, rest, rfl, ?_, ?_⟩, hpositive, hlength,
      hlength ▸ hsum.trans htotal⟩
    · exact (le_min hlow hhigh).trans hge
    · have hrest := List.sum_nonneg (List.forall_mem_cons.mp hpositive).2
      rw [List.sum_cons] at hsum
      omega

theorem sendable_350 :
    parsePadding (ascii "100-35-50.50-10-20.75-300-200") =
        .ok { lens := [⟨100, 35, 50⟩, ⟨75, 300, 200⟩], gaps := [⟨50, 10, 20⟩], maxLen := 350 } ∧
      Sendable { lens := [⟨100, 35, 50⟩, ⟨75, 300, 200⟩], gaps := [⟨50, 10, 20⟩], maxLen := 350 } :=
  have hparse : parsePadding (ascii "100-35-50.50-10-20.75-300-200") =
      .ok { lens := [⟨100, 35, 50⟩, ⟨75, 300, 200⟩], gaps := [⟨50, 10, 20⟩], maxLen := 350 } := by decide +kernel
  ⟨hparse, (sendable_iff hparse).mpr (by decide)⟩

/-- The sum of the larger bounds wraps and is accepted, and the length that is drawn wraps as well. -/
theorem not_sendable_wrapped :
    parsePadding (ascii "100-35-35.0-0-0.100-9223372036854775807-9223372036854775807") =
      .ok { lens := [⟨100, 35, 35⟩, ⟨100, 9223372036854775807, 9223372036854775807⟩]
            gaps := [⟨0, 0, 0⟩]
            maxLen := -9223372036854775774 } ∧
    ¬ Sendable { lens := [⟨100, 35, 35⟩, ⟨100, 9223372036854775807, 9223372036854775807⟩]
                 gaps := [⟨0, 0, 0⟩]
                 maxLen := -9223372036854775774 } := by
  refine ⟨by decide +kernel, fun hsendable => ?_⟩
  obtain ⟨created, hcreated, -, -, hlength, -⟩ := hsendable (fun _ => ⟨0, 0⟩) fun _ => ⟨0, 0⟩
  have hvalue : creatPadding { lens := [⟨100, 35, 35⟩, ⟨100, 9223372036854775807, 9223372036854775807⟩]
                               gaps := [⟨0, 0, 0⟩]
                               maxLen := -9223372036854775774 } (fun _ => ⟨0, 0⟩) (fun _ => ⟨0, 0⟩) =
      .ok { length := -9223372036854775774, lens := [35, 9223372036854775807], gaps := [0] } := by
    decide +kernel
  obtain rfl := Except.ok.inj (hvalue.symm.trans hcreated)
  exact absurd hlength (by decide)

end V2RootCore.Vless
