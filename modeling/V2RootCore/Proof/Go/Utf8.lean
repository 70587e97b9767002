import V2RootCore.Go.Utf8
import V2RootCore.Proof.Go.Strings

/-!
# What coercion to UTF-8 keeps

Coercion leaves valid strings alone and yields a valid one. It never touches ASCII bytes, and it
makes a string longer by at most two bytes for each byte that is not ASCII.
-/

namespace V2RootCore.Go.Utf8

def isAscii (c : UInt8) : Bool := c < 0x80

theorem runeLen_of_isAscii {c : UInt8} (hc : isAscii c = true) (rest : Bytes) :
    runeLen (c :: rest) = some 1 := by
  have hlt : c < 0x80 := of_decide_eq_true hc
  rw [runeLen.eq_def]
  simp [hlt]

theorem isAscii_of_runeLen_eq_none {c : UInt8} {rest : Bytes} (h : runeLen (c :: rest) = none) :
    isAscii c = false := by
  cases hc : isAscii c with
  | false => rfl
  | true =>
      rw [runeLen_of_isAscii hc] at h
      cases h

variable {s : Bytes} {len : Nat} {c : UInt8}

theorem runeLen_cases (h : runeLen s = some len) :
    (∃ c₀ rest, s = c₀ :: rest ∧ len = 1 ∧ c₀ < 0x80) ∨
      (∃ c₀ c₁ rest, s = c₀ :: c₁ :: rest ∧ len = 2 ∧ ¬ c₀ < 0x80 ∧ isTwo c₀ c₁ = true) ∨
      (∃ c₀ c₁ c₂ rest, s = c₀ :: c₁ :: c₂ :: rest ∧ len = 3 ∧ ¬ c₀ < 0x80 ∧
        ¬ isTwo c₀ c₁ = true ∧ isThree c₀ c₁ c₂ = true) ∨
      ∃ c₀ c₁ c₂ c₃ rest, s = c₀ :: c₁ :: c₂ :: c₃ :: rest ∧ len = 4 ∧ ¬ c₀ < 0x80 ∧
        ¬ isTwo c₀ c₁ = true ∧ ¬ isThree c₀ c₁ c₂ = true ∧ isFour c₀ c₁ c₂ c₃ = true := by
  cases s with
  | nil => cases h
  | cons c₀ rest =>
  rw [runeLen.eq_def] at h
  simp only at h
  by_cases hone : c₀ < 0x80
  · rw [if_pos hone] at h
    exact Or.inl ⟨c₀, rest, rfl, (Option.some.inj h).symm, hone⟩
  rw [if_neg hone] at h
  cases rest with
  | nil => cases h
  | cons c₁ rest =>
  simp only at h
  by_cases htwo : isTwo c₀ c₁ = true
  · rw [if_pos htwo] at h
    exact Or.inr (Or.inl ⟨c₀, c₁, rest, rfl, (Option.some.inj h).symm, hone, htwo⟩)
  rw [if_neg htwo] at h
  cases rest with
  | nil => cases h
  | cons c₂ rest =>
  simp only at h
  by_cases hthree : isThree c₀ c₁ c₂ = true
  · rw [if_pos hthree] at h
    exact Or.inr (Or.inr (Or.inl
      ⟨c₀, c₁, c₂, rest, rfl, (Option.some.inj h).symm, hone, htwo, hthree⟩))
  rw [if_neg hthree] at h
  cases rest with
  | nil => cases h
  | cons c₃ rest =>
  simp only at h
  by_cases hfour : isFour c₀ c₁ c₂ c₃ = true
  · rw [if_pos hfour] at h
    exact Or.inr (Or.inr (Or.inr
      ⟨c₀, c₁, c₂, c₃, rest, rfl, (Option.some.inj h).symm, hone, htwo, hthree, hfour⟩))
  · rw [if_neg hfour] at h
    cases h

theorem runeLen_take (h : runeLen s = some len) (rest : Bytes) :
    runeLen (s.take len ++ rest) = some len := by
  obtain ⟨c₀, _, rfl, rfl, hone⟩ | ⟨c₀, c₁, _, rfl, rfl, hone, htwo⟩ |
    ⟨c₀, c₁, c₂, _, rfl, rfl, hone, htwo, hthree⟩ |
    ⟨c₀, c₁, c₂, c₃, _, rfl, rfl, hone, htwo, hthree, hfour⟩ := runeLen_cases h
  · simp [runeLen.eq_def, hone]
  · simp [runeLen.eq_def, hone, htwo]
  · simp [runeLen.eq_def, hone, htwo, hthree]
  · simp [runeLen.eq_def, hone, htwo, hthree, hfour]

theorem one_le_of_runeLen (h : runeLen s = some len) :
    1 ≤ len ∧ len ≤ s.length := by
  obtain ⟨_, _, rfl, rfl, -⟩ | ⟨_, _, _, rfl, rfl, -⟩ | ⟨_, _, _, _, rfl, rfl, -⟩ |
    ⟨_, _, _, _, _, rfl, rfl, -⟩ := runeLen_cases h
  all_goals
    simp only [List.length_cons]
    omega

theorem coerceFrom_eq_append (skip : Nat) (s : Bytes) :
    coerceFrom skip s = s.take skip ++ coerceFrom 0 (s.drop skip) := by
  induction s generalizing skip with
  | nil => cases skip <;> simp [coerceFrom]
  | cons c rest ih =>
      cases skip with
      | zero => simp
      | succ skip => simp [coerceFrom, ih skip]

theorem validFrom_append {skip : Nat} {before : Bytes} (h : before.length = skip) (s : Bytes) :
    validFrom skip (before ++ s) = validFrom 0 s := by
  induction before generalizing skip with
  | nil =>
      subst h
      rfl
  | cons c rest ih =>
      subst h
      exact ih rfl

theorem coerceFrom_of_validFrom {skip : Nat} (h : validFrom skip s = true) :
    coerceFrom skip s = s := by
  induction s generalizing skip with
  | nil => cases skip <;> rfl
  | cons c rest ih =>
      cases skip with
      | succ skip => exact congrArg (c :: ·) (ih h)
      | zero =>
          rw [validFrom] at h
          rw [coerceFrom]
          cases hlen : runeLen (c :: rest) with
          | none => simp [hlen] at h
          | some len =>
              simp only [hlen] at h ⊢
              exact congrArg (c :: ·) (ih h)

theorem valid_of_isAscii (h : ∀ c ∈ s, isAscii c = true) : valid s = true := by
  induction s with
  | nil => rfl
  | cons c rest ih =>
      have hlen := runeLen_of_isAscii (h c List.mem_cons_self) rest
      have hrest : validFrom 0 rest = true := ih fun b hb => h b (List.mem_cons_of_mem c hb)
      simp [valid, validFrom, hlen, hrest]

theorem coerce_of_valid (h : valid s = true) : coerce s = s :=
  coerceFrom_of_validFrom h

theorem validFrom_replacement (s : Bytes) : validFrom 0 (replacement ++ s) = validFrom 0 s := by
  have hlen : runeLen (replacement ++ s) = some 3 := by
    simp [runeLen.eq_def, replacement, isTwo, isThree, isContinuation]
  rw [replacement] at hlen ⊢
  rw [List.cons_append, validFrom, ← List.cons_append, hlen]
  have hcontinue : ([0xBF, 0xBD] : Bytes).length = 2 := rfl
  exact validFrom_append hcontinue s

theorem valid_coerce (s : Bytes) : valid (coerce s) = true := by
  induction hlength : s.length using Nat.strongRecOn generalizing s with
  | _ n ih =>
      cases s with
      | nil => rfl
      | cons c rest =>
          have hstep : ∀ t : Bytes, t.length < n → validFrom 0 (coerceFrom 0 t) = true :=
            fun t ht => ih t.length ht t rfl
          rw [valid, coerce, coerceFrom]
          simp only [List.length_cons] at hlength
          cases hlen : runeLen (c :: rest) with
          | none =>
              simp only
              rw [validFrom_replacement]
              exact hstep rest (by omega)
          | some len =>
              obtain ⟨hpos, hle⟩ := one_le_of_runeLen hlen
              simp only [List.length_cons] at hle
              have htake := runeLen_take hlen (coerceFrom 0 (rest.drop (len - 1)))
              obtain ⟨skip, rfl⟩ : ∃ skip, len = skip + 1 := ⟨len - 1, by omega⟩
              simp only [Nat.add_sub_cancel, List.take_succ_cons, List.cons_append] at htake ⊢
              rw [coerceFrom_eq_append, validFrom, htake]
              simp only [Nat.add_sub_cancel]
              rw [validFrom_append (by simp; omega)]
              exact hstep _ (by simp; omega)

theorem coerce_coerce (s : Bytes) : coerce (coerce s) = coerce s := coerce_of_valid (valid_coerce s)

theorem coerce_eq_self_iff : coerce s = s ↔ valid s = true := by
  constructor
  · intro h
    rw [← h]
    exact valid_coerce s
  · exact coerce_of_valid

/-! ### ASCII -/

theorem filter_isAscii_coerceFrom (skip : Nat) (s : Bytes) :
    (coerceFrom skip s).filter isAscii = s.filter isAscii := by
  induction s generalizing skip with
  | nil => cases skip <;> rfl
  | cons c rest ih =>
      cases skip with
      | succ skip => rw [coerceFrom, List.filter_cons, List.filter_cons, ih]
      | zero =>
          rw [coerceFrom]
          cases hlen : runeLen (c :: rest) with
          | some len => simp only [List.filter_cons, ih]
          | none =>
              have hreplacement : replacement.filter isAscii = [] := by decide
              simp [ih, isAscii_of_runeLen_eq_none hlen, hreplacement]

theorem filter_isAscii_coerce (s : Bytes) : (coerce s).filter isAscii = s.filter isAscii :=
  filter_isAscii_coerceFrom 0 s

theorem length_coerceFrom_le (skip : Nat) (s : Bytes) :
    (coerceFrom skip s).length ≤ s.length + 2 * s.countP fun c => !isAscii c := by
  induction s generalizing skip with
  | nil => cases skip <;> simp [coerceFrom]
  | cons c rest ih =>
      cases skip with
      | succ skip =>
          have := ih skip
          simp only [coerceFrom, List.length_cons, List.countP_cons]
          omega
      | zero =>
          rw [coerceFrom]
          cases hlen : runeLen (c :: rest) with
          | some len =>
              have := ih (len - 1)
              simp only [List.length_cons, List.countP_cons]
              omega
          | none =>
              have := ih 0
              simp only [List.length_append, List.length_cons, List.countP_cons,
                isAscii_of_runeLen_eq_none hlen, replacement, List.length_nil]
              simp only [Bool.not_false, if_true]
              omega

theorem length_coerce_le (s : Bytes) :
    (coerce s).length ≤ s.length + 2 * s.countP fun c => !isAscii c :=
  length_coerceFrom_le 0 s

theorem isAscii_imp_mem_of_mem_coerce (hc : c ∈ coerce s) (hascii : isAscii c = true) : c ∈ s := by
  have hmem : c ∈ (coerce s).filter isAscii := List.mem_filter.mpr ⟨hc, hascii⟩
  rw [filter_isAscii_coerce] at hmem
  exact (List.mem_filter.mp hmem).1

theorem coerce_eq_nil_iff : coerce s = [] ↔ s = [] := by
  constructor
  · intro h
    cases s with
    | nil => rfl
    | cons c rest =>
        rw [coerce, coerceFrom] at h
        split at h <;> simp [replacement] at h
  · rintro rfl
    rfl

end V2RootCore.Go.Utf8
