import V2RootCore.Conf.Int32Range
import V2RootCore.Proof.Go.Strings

/-!
# Which integers a range has

A text is split at the dash that is not a sign, whatever the signs of the two integers are, and both are read as
numbers of 64 bits. They are then cut to 32 bits without a check.
-/

namespace V2RootCore.Conf

open Go

section Numbers

/-- A decimal number. -/
def IsDecimal (s : Bytes) (n : Nat) : Prop :=
  s ≠ [] ∧ s.all isDigit = true ∧ s.foldl (fun n c => 10 * n + (c.toNat - 48)) 0 = n

inductive IsInteger : Bytes → Int → Prop
  | plain {s : Bytes} {n : Nat} : IsDecimal s n → IsInteger s n
  | plus {s : Bytes} {n : Nat} : IsDecimal s n → IsInteger (43 :: s) n
  | minus {s : Bytes} {n : Nat} : IsDecimal s n → IsInteger (45 :: s) (-n)

variable {s : Bytes} {n : Nat}

theorem isDecimal_formatUint (n : Nat) : IsDecimal (formatUint n) n :=
  ⟨formatUint_ne_nil n, formatUint_all_isDigit n, foldl_formatUint n⟩

theorem IsDecimal.ne_of_mem (h : IsDecimal s n) {c : UInt8} (hc : c ∈ s) : c ≠ 43 ∧ c ≠ 44 ∧ c ≠ 45 := by
  have hdigit := List.all_eq_true.mp h.2.1 c hc
  refine ⟨?_, ?_, ?_⟩ <;> rintro rfl <;> cases hdigit

theorem IsDecimal.unique {n' : Nat} (h : IsDecimal s n) (h' : IsDecimal s n') : n = n' := h.2.2.symm.trans h'.2.2

theorem parseUint_eq_some_iff {bitSize : Nat} : parseUint s bitSize = some n ↔ IsDecimal s n ∧ n < 2 ^ bitSize := by
  unfold parseUint IsDecimal
  dsimp only
  split_ifs <;> grind

theorem magnitude_eq_ok_iff {negative : Bool} {z : Int} : magnitude negative s = .ok z ↔
    ∃ n : Nat, IsDecimal s n ∧ z = (if negative then -(n : Int) else n) ∧ -2 ^ 63 ≤ z ∧ z < 2 ^ 63 := by
  unfold magnitude IsDecimal
  by_cases hdigits : s = [] ∨ ¬s.all isDigit = true
  · rw [if_pos hdigits]
    refine iff_of_false (fun h => by cases h) ?_
    rintro ⟨n, ⟨hne, hall, -⟩, -⟩
    exact hdigits.elim hne fun h => h hall
  · obtain ⟨hne, hall⟩ := not_or.mp hdigits
    rw [if_neg hdigits]
    generalize s.foldl (fun n c => 10 * n + (c.toNat - 48)) 0 = m
    have hone : (∃ n : Nat, (s ≠ [] ∧ s.all isDigit = true ∧ m = n) ∧ z = (if negative then -(n : Int) else n) ∧
        -2 ^ 63 ≤ z ∧ z < 2 ^ 63) ↔ z = (if negative then -(m : Int) else m) ∧ -2 ^ 63 ≤ z ∧ z < 2 ^ 63 := by
      constructor
      · rintro ⟨n, ⟨-, -, rfl⟩, h⟩
        exact h
      · exact fun h => ⟨m, ⟨hne, not_not.mp hall, rfl⟩, h⟩
    rw [hone]
    cases negative with
    | true =>
        dsimp only
        rw [if_pos rfl, if_pos rfl]
        split_ifs with hm
        · rw [Except.ok.injEq]
          omega
        · exact iff_of_false (fun h => by cases h) fun h => by omega
    | false =>
        dsimp only
        rw [if_neg Bool.false_ne_true, if_neg Bool.false_ne_true]
        split_ifs with hm
        · rw [Except.ok.injEq]
          omega
        · exact iff_of_false (fun h => by cases h) fun h => by omega

theorem atoi_plain (hminus : s.head? ≠ some 45) (hplus : s.head? ≠ some 43) : atoi s = magnitude false s := by
  unfold atoi
  split
  · exact absurd rfl hminus
  · exact absurd rfl hplus
  · rfl

theorem atoi_eq_ok_iff {z : Int} : atoi s = .ok z ↔ IsInteger s z ∧ -2 ^ 63 ≤ z ∧ z < 2 ^ 63 := by
  by_cases hminus : s.head? = some 45
  · obtain ⟨s, rfl⟩ := List.head?_eq_some_iff.mp hminus
    change magnitude true s = .ok z ↔ _
    rw [magnitude_eq_ok_iff]
    constructor
    · rintro ⟨n, hn, rfl, hrange⟩
      exact ⟨.minus hn, hrange⟩
    · rintro ⟨hinteger, hrange⟩
      cases hinteger with
      | plain hn => exact absurd rfl (hn.ne_of_mem List.mem_cons_self).2.2
      | minus hn => exact ⟨_, hn, rfl, hrange⟩
  by_cases hplus : s.head? = some 43
  · obtain ⟨s, rfl⟩ := List.head?_eq_some_iff.mp hplus
    change magnitude false s = .ok z ↔ _
    rw [magnitude_eq_ok_iff]
    constructor
    · rintro ⟨n, hn, rfl, hrange⟩
      exact ⟨.plus hn, hrange⟩
    · rintro ⟨hinteger, hrange⟩
      cases hinteger with
      | plain hn => exact absurd rfl (hn.ne_of_mem List.mem_cons_self).1
      | plus hn => exact ⟨_, hn, rfl, hrange⟩
  · rw [atoi_plain hminus hplus, magnitude_eq_ok_iff]
    constructor
    · rintro ⟨n, hn, rfl, hrange⟩
      exact ⟨.plain hn, hrange⟩
    · rintro ⟨hinteger, hrange⟩
      cases hinteger with
      | plain hn => exact ⟨_, hn, rfl, hrange⟩
      | plus hn => exact absurd rfl hplus
      | minus hn => exact absurd rfl hminus

end Numbers

section Texts

variable {s : Bytes} {l r : Int}

/-- The integers written in the text of a range. -/
inductive Written : Bytes → Int → Int → Prop
  | empty : Written [] 0 0
  | single {s : Bytes} {n : Int} : IsInteger s n → Written s n n
  | pair {left right : Bytes} {l r : Int} : IsInteger left l → IsInteger right r → Written (left ++ 45 :: right) l r

def InInt64 (z : Int) : Prop := -2 ^ 63 ≤ z ∧ z < 2 ^ 63

def InInt32 (z : Int) : Prop := -2 ^ 31 ≤ z ∧ z < 2 ^ 31

theorem splitTwo_append {left : Bytes} (h : 45 ∉ left) (right : Bytes) :
    splitTwo 45 (left ++ 45 :: right) = some (left, right) := by
  rw [splitTwo, if_pos (List.mem_append_right _ List.mem_cons_self), cut_append h]

theorem splitTwo_eq_some {left right : Bytes} (h : splitTwo 45 s = some (left, right)) :
    s = left ++ 45 :: right := by
  unfold splitTwo at h
  split_ifs at h with hmem
  obtain ⟨before, after, rfl, hnot⟩ := List.eq_append_cons_of_mem hmem
  rw [cut_append hnot] at h
  obtain ⟨rfl, rfl⟩ := Prod.mk.inj (Option.some.inj h)
  rfl

theorem IsDecimal.dash_notMem {n : Nat} (h : IsDecimal s n) : 45 ∉ s := fun hc => (h.ne_of_mem hc).2.2 rfl

theorem IsInteger.dash_notMem_tail {z : Int} (h : IsInteger s z) : s ≠ [] ∧ 45 ∉ s.tail := by
  cases h with
  | plain hn => exact ⟨hn.1, fun hc => hn.dash_notMem (List.mem_of_mem_tail hc)⟩
  | plus hn => exact ⟨List.cons_ne_nil _ _, hn.dash_notMem⟩
  | minus hn => exact ⟨List.cons_ne_nil _ _, hn.dash_notMem⟩

/-- How a text is split into two. -/
def splitRange (s : Bytes) : Option (Bytes × Bytes) :=
  if hasPrefix s [45] then splitFromSecondDash s else splitTwo 45 s

theorem splitRange_append {left right : Bytes} (hleft : IsInteger left l) :
    splitRange (left ++ 45 :: right) = some (left, right) := by
  have hplain : 45 ∉ left → splitRange (left ++ 45 :: right) = some (left, right) := by
    intro hnot
    obtain ⟨c, left, rfl⟩ := List.exists_cons_of_ne_nil hleft.dash_notMem_tail.1
    have hc : ¬45 = c := fun h => hnot (h ▸ List.mem_cons_self)
    rw [splitRange, if_neg, splitTwo_append hnot]
    simp [hasPrefix, hc]
  cases hleft with
  | plain hn => exact hplain hn.dash_notMem
  | plus hn => exact hplain (by simpa using hn.dash_notMem)
  | @minus digits n hn =>
      have hfirst : splitTwo 45 (45 :: (digits ++ 45 :: right)) = some ([], digits ++ 45 :: right) :=
        splitTwo_append List.not_mem_nil _
      have hsign : hasPrefix (45 :: (digits ++ 45 :: right)) [45] = true := hasPrefix_append [45] _
      rw [splitRange, List.cons_append, if_pos hsign, splitFromSecondDash, hfirst]
      dsimp only
      rw [splitTwo_append hn.dash_notMem]
      rfl

theorem splitRange_eq_some {left right : Bytes} (h : splitRange s = some (left, right)) :
    s = left ++ 45 :: right := by
  unfold splitRange at h
  split_ifs at h
  · unfold splitFromSecondDash at h
    cases hfirst : splitTwo 45 s with
    | none =>
        rw [hfirst] at h
        cases h
    | some pair =>
        rw [hfirst] at h
        obtain ⟨⟨second, third⟩, hsecond, hpair⟩ := Option.map_eq_some_iff.mp h
        obtain ⟨rfl, rfl⟩ := Prod.mk.inj hpair
        rw [splitTwo_eq_some hfirst, splitTwo_eq_some hsecond, List.append_assoc, List.cons_append]
  · exact splitTwo_eq_some h

/-- **The text of a range is read exactly**, as far as the integers have 64 bits. -/
theorem parseRangeString_eq_ok_iff : parseRangeString s = .ok (l, r) ↔ Written s l r ∧ InInt64 l ∧ InInt64 r := by
  have hsplit : (if hasPrefix s [45] = true then splitFromSecondDash s else splitTwo 45 s) = splitRange s := rfl
  unfold parseRangeString
  rw [hsplit]
  constructor
  · intro h
    cases hs : atoi s with
    | ok value =>
        rw [hs] at h
        obtain ⟨rfl, rfl⟩ := Prod.mk.inj (Except.ok.inj h)
        obtain ⟨hinteger, hrange⟩ := atoi_eq_ok_iff.mp hs
        exact ⟨.single hinteger, hrange, hrange⟩
    | error err =>
        rw [hs] at h
        dsimp only at h
        split_ifs at h with hnil
        · obtain ⟨rfl, rfl⟩ := Prod.mk.inj (Except.ok.inj h)
          exact ⟨hnil ▸ .empty, by unfold InInt64; decide, by unfold InInt64; decide⟩
        · cases hpair : splitRange s with
          | none =>
              rw [hpair] at h
              cases h
          | some pair =>
              rw [hpair] at h
              dsimp only at h
              cases hleft : atoi pair.1 with
              | error _ =>
                  rw [hleft] at h
                  cases h
              | ok left =>
                  cases hright : atoi pair.2 with
                  | error _ =>
                      rw [hleft, hright] at h
                      cases h
                  | ok right =>
                      rw [hleft, hright] at h
                      obtain ⟨rfl, rfl⟩ := Prod.mk.inj (Except.ok.inj h)
                      obtain ⟨hl, hl'⟩ := atoi_eq_ok_iff.mp hleft
                      obtain ⟨hr, hr'⟩ := atoi_eq_ok_iff.mp hright
                      exact ⟨splitRange_eq_some hpair ▸ .pair hl hr, hl', hr'⟩
  · rintro ⟨hwritten, hl', hr'⟩
    cases hwritten with
    | empty => rfl
    | single hn => rw [atoi_eq_ok_iff.mpr ⟨hn, hl'⟩]
    | @pair left right _ _ hl hr =>
        obtain ⟨hne, -⟩ := hl.dash_notMem_tail
        cases hs : atoi (left ++ 45 :: right) with
        | ok value =>
            have hnot := (atoi_eq_ok_iff.mp hs).1.dash_notMem_tail.2
            rw [List.tail_append_of_ne_nil hne] at hnot
            exact absurd (List.mem_append_right _ List.mem_cons_self) hnot
        | error err =>
            dsimp only
            rw [if_neg (List.append_ne_nil_of_left_ne_nil hne _), splitRange_append hl]
            dsimp only
            rw [atoi_eq_ok_iff.mpr ⟨hl, hl'⟩, atoi_eq_ok_iff.mpr ⟨hr, hr'⟩]

theorem Written.unique {s : Bytes} {l r l' r' : Int} (h : Written s l r) (hl : InInt64 l) (hr : InInt64 r)
    (h' : Written s l' r') (hl' : InInt64 l') (hr' : InInt64 r') : l = l' ∧ r = r' := by
  have hparse := parseRangeString_eq_ok_iff.mpr ⟨h, hl, hr⟩
  rw [parseRangeString_eq_ok_iff.mpr ⟨h', hl', hr'⟩] at hparse
  obtain ⟨hleft, hright⟩ := Prod.mk.inj (Except.ok.inj hparse)
  exact ⟨hleft.symm, hright.symm⟩

end Texts

namespace Int32Range

theorem isInteger_itoa (z : Int) : IsInteger (itoa z) z := by
  have habs := isDecimal_formatUint z.natAbs
  unfold itoa
  split_ifs with hneg
  · have hminus := IsInteger.minus habs
    rwa [Int.natCast_natAbs, abs_of_neg hneg, neg_neg] at hminus
  · have hplain := IsInteger.plain habs
    rwa [Int.natCast_natAbs, abs_of_nonneg (not_lt.mp hneg)] at hplain

theorem inInt32 (x : Int32) : InInt32 x.toInt := ⟨x.le_toInt, x.toInt_lt⟩

theorem inInt64 (x : Int32) : InInt64 x.toInt := by
  have := inInt32 x
  unfold InInt32 InInt64 at *
  omega

theorem toInt_ofInt {z : Int} (h : InInt32 z) : (Int32.ofInt z).toInt = z :=
  Int32.toInt_ofInt_of_le h.1 h.2

theorem unmarshalEnds_string {s : Bytes} {l r : Int} (h : Written s l r) (hl : InInt64 l) (hr : InInt64 r) :
    unmarshalEnds (.string s) = .ok ⟨.ofInt l, .ofInt r⟩ := by
  rw [unmarshalEnds, parseRangeString_eq_ok_iff.mpr ⟨h, hl, hr⟩]

theorem written_of_unmarshalEnds {s : Bytes} {ends : Ends} (h : unmarshalEnds (.string s) = .ok ends) :
    ∃ l r, Written s l r ∧ InInt64 l ∧ InInt64 r := by
  unfold unmarshalEnds at h
  dsimp only at h
  cases hparse : parseRangeString s with
  | ok pair => exact ⟨pair.1, pair.2, parseRangeString_eq_ok_iff.mp hparse⟩
  | error _ =>
      rw [hparse] at h
      cases h

/-- What is written is read back. -/
theorem unmarshalEnds_marshalJSON (v : Ends) : unmarshalEnds v.marshalJSON = .ok v := by
  have hwritten : Written v.string v.left.toInt v.right.toInt := by
    unfold Ends.string
    split_ifs with heq
    · rw [← heq]
      exact .single (isInteger_itoa _)
    · exact .pair (isInteger_itoa _) (isInteger_itoa _)
  rw [Ends.marshalJSON, unmarshalEnds_string hwritten (inInt64 v.left) (inInt64 v.right), Int32.ofInt_toInt,
    Int32.ofInt_toInt]

/-- The integers that stand in the JSON. -/
def WrittenJson : Json → Int → Int → Prop
  | .string s, l, r => Written s l r
  | .integer n, l, r => l = n ∧ r = n
  | .other, _, _ => False

/-- A range that is read has the integers that are written, `From` and `To` are these in ascending order, and it
comes back from what is written for it. -/
def Exact (v : Json) : Prop :=
  ∀ ends, unmarshalEnds v = .ok ends → WrittenJson v ends.left.toInt ends.right.toInt ∧
    unmarshalJSON v = .ok ends.range ∧ ends.range.lower.toInt = min ends.left.toInt ends.right.toInt ∧
    ends.range.upper.toInt = max ends.left.toInt ends.right.toInt ∧ unmarshalEnds ends.marshalJSON = .ok ends

theorem unmarshalJSON_eq {v : Json} {ends : Ends} (h : unmarshalEnds v = .ok ends) :
    unmarshalJSON v = .ok ends.range := by
  rw [unmarshalJSON, h]
  rfl

theorem range_ends (ends : Ends) : ends.range.lower.toInt = min ends.left.toInt ends.right.toInt ∧
    ends.range.upper.toInt = max ends.left.toInt ends.right.toInt := by
  unfold Ends.range ensureOrder
  split_ifs with horder
  · have := Int32.lt_iff_toInt_lt.mp horder
    dsimp only
    omega
  · have := Int32.le_iff_toInt_le.mp (Int32.not_lt.mp horder)
    dsimp only
    omega

/-- **Integer ranges are read exactly unless an integer does not have 32 bits.** -/
theorem unmarshalJSON_exact_iff (v : Json) : Exact v ↔
    ∀ s l r, v = .string s → Written s l r → InInt64 l → InInt64 r → InInt32 l ∧ InInt32 r := by
  constructor
  · rintro hexact s l r rfl hwritten hl hr
    have hread := unmarshalEnds_string hwritten hl hr
    have hkept : Written s (Int32.ofInt l).toInt (Int32.ofInt r).toInt := (hexact _ hread).1
    obtain ⟨hleft, hright⟩ := hwritten.unique hl hr hkept (inInt64 _) (inInt64 _)
    rw [hleft, hright]
    exact ⟨inInt32 _, inInt32 _⟩
  · intro hfits ends hends
    refine ⟨?_, unmarshalJSON_eq hends, (range_ends ends).1, (range_ends ends).2, unmarshalEnds_marshalJSON ends⟩
    cases v with
    | string s =>
        obtain ⟨l, r, hwritten, hl, hr⟩ := written_of_unmarshalEnds hends
        obtain ⟨hl', hr'⟩ := hfits s l r rfl hwritten hl hr
        rw [unmarshalEnds_string hwritten hl hr] at hends
        rw [← Except.ok.inj hends]
        dsimp only
        rwa [WrittenJson, toInt_ofInt hl', toInt_ofInt hr']
    | integer n =>
        unfold unmarshalEnds at hends
        dsimp only at hends
        split_ifs at hends with hrange
        · rw [← Except.ok.inj hends]
          exact ⟨toInt_ofInt hrange, toInt_ofInt hrange⟩
        · cases hends
    | other => cases hends

/-- `"4294967297"` is read as 1. -/
theorem unmarshalJSON_not_exact : unmarshalEnds (.string (ascii "4294967297")) = .ok ⟨1, 1⟩ ∧
    ¬Exact (.string (ascii "4294967297")) := by
  have hdecimal : IsDecimal (ascii "4294967297") 4294967297 := ⟨by decide, by decide, by decide⟩
  have hsize : InInt64 4294967297 := ⟨by decide, by decide⟩
  have hwritten : Written (ascii "4294967297") 4294967297 4294967297 := .single (.plain hdecimal)
  have hread : unmarshalEnds (.string (ascii "4294967297")) = .ok ⟨1, 1⟩ :=
    unmarshalEnds_string hwritten hsize hsize
  refine ⟨hread, fun hexact => ?_⟩
  have hkept : Written (ascii "4294967297") (1 : Int32).toInt (1 : Int32).toInt := (hexact _ hread).1
  have hsame := hwritten.unique hsize hsize hkept (inInt64 1) (inInt64 1)
  exact absurd hsame.1 (by decide)

end Int32Range

end V2RootCore.Conf
