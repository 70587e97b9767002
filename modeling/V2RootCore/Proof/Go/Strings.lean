import Mathlib.Data.List.TakeWhile
import V2RootCore.Go.Strings

/-!
# Cutting strings and printing numbers
-/

namespace V2RootCore.Go

variable {sep : UInt8} {s before after : Bytes}

theorem forall_byte {P : UInt8 → Prop} (h : ∀ n : Fin 256, P (UInt8.ofFin n)) (c : UInt8) : P c :=
  h c.toFin

theorem bind_eq_ok {ε α β : Type} {x : Except ε α} {f : α → Except ε β} {b : β} :
    x >>= f = .ok b ↔ ∃ a, x = .ok a ∧ f a = .ok b := by
  cases x with
  | error error => simp [bind, Except.bind]
  | ok a => simp [bind, Except.bind]

theorem toOption_eq_some {ε α : Type} {result : Except ε α} {value : α} :
    result.toOption = some value ↔ result = .ok value := by
  cases result with
  | error error => simp [Except.toOption]
  | ok other => simp [Except.toOption]

/-! ### Cutting -/

theorem forall_ne_of_notMem (h : sep ∉ s) : ∀ c ∈ s, decide (c ≠ sep) = true :=
  fun _ hc => decide_eq_true fun heq => h (heq ▸ hc)

theorem cut_of_notMem (h : sep ∉ s) : cut sep s = (s, []) := by
  have hall := forall_ne_of_notMem h
  rw [cut, List.takeWhile_eq_self_iff.mpr hall, List.dropWhile_eq_nil_iff.mpr hall]
  rfl

theorem cut_append (h : sep ∉ before) (after : Bytes) :
    cut sep (before ++ sep :: after) = (before, after) := by
  have hall := forall_ne_of_notMem h
  rw [cut, List.takeWhile_append_of_pos hall, List.dropWhile_append_of_pos hall]
  simp

theorem cut_append_left (h : sep ∉ before) (s : Bytes) :
    cut sep (before ++ s) = (before ++ (cut sep s).1, (cut sep s).2) := by
  have hall := forall_ne_of_notMem h
  rw [cut, List.takeWhile_append_of_pos hall, List.dropWhile_append_of_pos hall]
  rfl

theorem cutLast_eq_none : cutLast sep s = none ↔ sep ∉ s := by
  induction s with
  | nil => simp [cutLast]
  | cons c rest ih =>
      rw [cutLast]
      cases hrest : cutLast sep rest with
      | some pair =>
          have hmem : sep ∈ rest := by
            by_contra hnot
            rw [ih.mpr hnot] at hrest
            cases hrest
          simp [hmem]
      | none =>
          have hnot := ih.mp hrest
          by_cases hc : c = sep
          · simp [hc]
          · have hne : sep ≠ c := fun heq => hc heq.symm
            simp [hc, hne, hnot]

theorem cutLast_append (h : sep ∉ after) (before : Bytes) :
    cutLast sep (before ++ sep :: after) = some (before, after) := by
  induction before with
  | nil => simp [cutLast, cutLast_eq_none.mpr h]
  | cons c rest ih => simp [cutLast, ih]

theorem cutLast_eq_some (h : cutLast sep s = some (before, after)) :
    s = before ++ sep :: after ∧ sep ∉ after := by
  induction s generalizing before with
  | nil => cases h
  | cons c rest ih =>
      rw [cutLast] at h
      cases hrest : cutLast sep rest with
      | some pair =>
          obtain ⟨before', after'⟩ := pair
          rw [hrest] at h
          obtain ⟨rfl, rfl⟩ := Prod.mk.inj (Option.some.inj h)
          obtain ⟨hsplit, hafter⟩ := ih hrest
          exact ⟨by rw [hsplit]; rfl, hafter⟩
      | none =>
          simp only [hrest] at h
          split at h
          · rename_i hc
            obtain ⟨rfl, rfl⟩ := Prod.mk.inj (Option.some.inj h)
            exact ⟨by rw [hc]; rfl, cutLast_eq_none.mp hrest⟩
          · cases h

theorem hasPrefix_append (start rest : Bytes) : hasPrefix (start ++ rest) start = true := by
  simp [hasPrefix]

theorem trimPrefix_append (start rest : Bytes) : trimPrefix (start ++ rest) start = rest := by
  simp [trimPrefix, hasPrefix_append]

/-! ### Numbers -/

theorem digit_of_mem_toDigits {n : Nat} {c : Char} (hc : c ∈ Nat.toDigits 10 n) :
    48 ≤ c.toNat ∧ c.toNat ≤ 57 := by
  have hdigit := Nat.isDigit_of_mem_toDigits (by decide) (by decide) hc
  simpa [Char.isDigit, UInt32.le_iff_toNat_le] using hdigit

theorem formatUint_all_isDigit (n : Nat) : (formatUint n).all isDigit = true := by
  rw [formatUint, List.all_eq_true]
  intro byte hbyte
  obtain ⟨c, hc, rfl⟩ := List.mem_map.mp hbyte
  obtain ⟨hlow, hhigh⟩ := digit_of_mem_toDigits hc
  have hbyte : c.toNat.toUInt8.toNat = c.toNat := by
    simp
    omega
  simp [isDigit, UInt8.le_iff_toNat_le, hbyte]
  omega

theorem formatUint_ne_nil (n : Nat) : formatUint n ≠ [] := by
  intro hnil
  exact Nat.toDigits_ne_nil (List.map_eq_nil_iff.mp hnil)

theorem foldl_formatUint (n : Nat) :
    (formatUint n).foldl (fun n c => 10 * n + (c.toNat - 48)) 0 = n := by
  have hread : Nat.ofDigitChars 10 (Nat.toDigits 10 n) 0 = n :=
    Nat.ofDigitChars_toDigits (by decide) (by decide)
  have hsame : ∀ (chars : List Char), (∀ c ∈ chars, 48 ≤ c.toNat ∧ c.toNat ≤ 57) → ∀ start,
      (chars.map fun c => c.toNat.toUInt8).foldl (fun n c => 10 * n + (c.toNat - 48)) start
        = Nat.ofDigitChars 10 chars start := by
    intro chars hchars
    induction chars with
    | nil => exact fun start => rfl
    | cons c rest ih =>
        intro start
        have hc := hchars c List.mem_cons_self
        have hbyte : c.toNat.toUInt8.toNat = c.toNat := by
          simp
          omega
        rw [List.map_cons, List.foldl_cons, ih (fun c hc => hchars c (List.mem_cons_of_mem _ hc)),
          Nat.ofDigitChars_cons, hbyte]
        rfl
  rw [formatUint, hsame _ (fun c hc => digit_of_mem_toDigits hc), hread]

theorem parseUint_formatUint {n bitSize : Nat} (h : n < 2 ^ bitSize) :
    parseUint (formatUint n) bitSize = some n := by
  rw [parseUint, if_pos ⟨formatUint_ne_nil n, formatUint_all_isDigit n⟩, foldl_formatUint, if_pos h]

end V2RootCore.Go
