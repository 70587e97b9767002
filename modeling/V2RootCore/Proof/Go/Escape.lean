import V2RootCore.Go.Url
import V2RootCore.Proof.Go.Utf8

/-!
# Escaping and unescaping

Unescaping undoes escaping. In general it makes a string shorter by two bytes for each percent sign,
so a string with a percent sign is never its own unescaping, not even after coercion to UTF-8.
-/

namespace V2RootCore.Go.Url

open Utf8

variable {c : UInt8} {s t : Bytes} {mode : Encoding}

/-! ### Single bytes -/

theorem upperhex_facts (c : UInt8) :
    (isHex (upperhex (c >>> 4)) = true ∧ isHex (upperhex (c &&& 15)) = true) ∧
      unhex (upperhex (c >>> 4)) <<< 4 ||| unhex (upperhex (c &&& 15)) = c := by
  revert c
  exact forall_byte (by decide +kernel)

theorem isHex_upperhex (c : UInt8) :
    isHex (upperhex (c >>> 4)) = true ∧ isHex (upperhex (c &&& 15)) = true := (upperhex_facts c).1

theorem unhex_upperhex (c : UInt8) :
    unhex (upperhex (c >>> 4)) <<< 4 ||| unhex (upperhex (c &&& 15)) = c := (upperhex_facts c).2

theorem isHex_facts (hc : isHex c = true) :
    isAscii c = true ∧ isAlphanumeric c = true ∧ c ≠ 37 ∧ (unhex c).toNat < 16 := by
  simp only [isHex, isDigit, Bool.or_eq_true, Bool.and_eq_true, decide_eq_true_eq] at hc
  have hsmall : unhex c < 16 := by
    simp only [unhex, isDigit]
    grind
  refine ⟨?_, ?_, ?_, UInt8.lt_iff_toNat_lt.mp hsmall⟩
  · simp only [isAscii]
    grind
  · simp only [isAlphanumeric, isLetter, isDigit]
    grind
  · grind

theorem isAscii_of_isHex (hc : isHex c = true) : isAscii c = true := (isHex_facts hc).1

theorem ne_percent_of_isHex (hc : isHex c = true) : c ≠ 37 := (isHex_facts hc).2.2.1

theorem shouldEscape_percent (mode : Encoding) : shouldEscape 37 mode = true := by
  cases mode <;> decide

theorem shouldEscape_query_plus : shouldEscape 43 .queryComponent = true := by decide

def isQueryByte (c : UInt8) : Bool := isAlphanumeric c || c ∈ ascii "-_.~%+"

theorem isQueryByte_of_isHex (hc : isHex c = true) : isQueryByte c = true := by
  rw [isQueryByte, (isHex_facts hc).2.1, Bool.true_or]

theorem isQueryByte_of_mem (hc : c ∈ ascii "-_.~%+") : isQueryByte c = true := by
  rw [isQueryByte, decide_eq_true hc, Bool.or_true]

theorem isQueryByte_of_not_shouldEscape (hc : shouldEscape c .queryComponent = false) :
    isQueryByte c = true := by
  rw [shouldEscape] at hc
  split_ifs at hc with halphanumeric hhost hmark
  · rw [isQueryByte, halphanumeric, Bool.true_or]
  · cases hhost.1
  · have hmarks : ascii "-_.~%+" = ascii "-_.~" ++ ascii "%+" := rfl
    exact isQueryByte_of_mem (hmarks ▸ List.mem_append_left _ hmark)
  · rename_i hfragment
    cases hfragment.1

theorem isQueryByte_of_mem_escapeByte (c : UInt8) :
    (escapeByte .queryComponent c).all isQueryByte = true := by
  obtain ⟨hhigh, hlow⟩ := isHex_upperhex c
  rw [escapeByte]
  split_ifs with hspace hescape
  · decide
  · simp only [List.all_cons, List.all_nil, Bool.and_true, isQueryByte_of_isHex hhigh,
      isQueryByte_of_isHex hlow]
    decide
  · rw [List.all_cons, List.all_nil, Bool.and_true]
    exact isQueryByte_of_not_shouldEscape (Bool.not_eq_true _ ▸ hescape)

/-! ### Unescaping what was escaped -/

/-- The modes in which escapes of `mode` are read back. -/
def reads (mode mode' : Encoding) : Bool :=
  !isHostMode mode' && ((mode = .queryComponent) == (mode' = .queryComponent) : Bool)

theorem unescape_escapeByte {mode mode' : Encoding} (hreads : reads mode mode' = true) (c : UInt8)
    (rest : Bytes) :
    unescape (escapeByte mode c ++ rest) mode' = (unescape rest mode').map (c :: ·) := by
  obtain ⟨hhost, hquery⟩ : isHostMode mode' = false ∧
      (mode = .queryComponent ↔ mode' = .queryComponent) := by
    simpa [reads] using hreads
  unfold escapeByte
  split
  · rename_i hspace
    obtain ⟨rfl, hmode⟩ := hspace
    rw [List.singleton_append, unescape.eq_def]
    simp [hquery.mp hmode]
  · rename_i hspace
    split
    · have hallowed : escapeAllowed (upperhex (c >>> 4)) (upperhex (c &&& 15)) mode' = true := by
        cases mode' <;> first | rfl | cases hhost
      obtain ⟨hhigh, hlow⟩ := isHex_upperhex c
      simp only [List.cons_append, List.nil_append, unescape]
      simp [hhigh, hlow, hallowed, unhex_upperhex]
    · rename_i hescape
      have hpercent : c ≠ 37 := by
        rintro rfl
        exact hescape (shouldEscape_percent mode)
      have hplus : ¬ (c = 43 ∧ mode' = .queryComponent) := by
        rintro ⟨rfl, hmode'⟩
        rw [hquery.mpr hmode'] at hescape
        exact hescape shouldEscape_query_plus
      rw [List.singleton_append, unescape.eq_def]
      simp [hpercent, hplus, hhost]

theorem unescape_escape {mode mode' : Encoding} (hreads : reads mode mode' = true) (s : Bytes) :
    unescape (escape s mode) mode' = .ok s := by
  induction s with
  | nil => rfl
  | cons c rest ih =>
      rw [escape, List.flatMap_cons, unescape_escapeByte hreads]
      change Except.map (c :: ·) (unescape (escape rest mode) mode') = _
      rw [ih]
      rfl

theorem escape_eq_nil_iff {s : Bytes} : escape s mode = [] ↔ s = [] := by
  cases s with
  | nil => simp [escape]
  | cons c rest =>
      have hbyte : escapeByte mode c ≠ [] := by
        unfold escapeByte
        split
        · simp
        · split <;> simp
      simp [escape, hbyte]

theorem isQueryByte_of_mem_queryEscape {s : Bytes} (hc : c ∈ queryEscape s) :
    isQueryByte c = true := by
  obtain ⟨b, -, hb⟩ := List.mem_flatMap.mp hc
  exact List.all_eq_true.mp (isQueryByte_of_mem_escapeByte b) c hb

theorem notMem_queryEscape (hc : isQueryByte c = false) (s : Bytes) :
    c ∉ queryEscape s := by
  intro hmem
  rw [isQueryByte_of_mem_queryEscape hmem] at hc
  cases hc

/-! ### Unescaping in general -/

theorem unescape_cons_cases {rest t : Bytes} (h : unescape (c :: rest) mode = .ok t) :
    (∃ x y rest' t', c = 37 ∧ rest = x :: y :: rest' ∧ isHex x = true ∧ isHex y = true ∧
        escapeAllowed x y mode = true ∧ unescape rest' mode = .ok t' ∧
        t = (unhex x <<< 4 ||| unhex y) :: t') ∨
      ∃ t', c ≠ 37 ∧ unescape rest mode = .ok t' ∧
        ((c = 43 ∧ mode = .queryComponent ∧ t = 32 :: t') ∨
          (¬ (c = 43 ∧ mode = .queryComponent) ∧
            ¬ (isHostMode mode = true ∧ c < 0x80 ∧ shouldEscape c mode = true) ∧ t = c :: t')) := by
  rw [unescape.eq_def] at h
  simp only at h
  by_cases hpercent : c = 37
  · left
    rw [if_pos hpercent] at h
    split at h
    · rename_i x y rest'
      split at h
      · rename_i hescape
        simp only [Bool.and_eq_true] at hescape
        cases hrest : unescape rest' mode with
        | error e => simp [hrest, Except.map] at h
        | ok t' =>
            simp only [hrest, Except.map, Except.ok.injEq] at h
            exact ⟨x, y, rest', t', hpercent, rfl, hescape.1.1, hescape.1.2, hescape.2, hrest,
              h.symm⟩
      · cases h
    · cases h
  · right
    rw [if_neg hpercent] at h
    cases hrest : unescape rest mode with
    | error e =>
        simp only [hrest, Except.map] at h
        split at h
        · cases h
        · split at h <;> cases h
    | ok t' =>
        refine ⟨t', hpercent, rfl, ?_⟩
        simp only [hrest, Except.map] at h
        split at h
        · rename_i hplus
          exact Or.inl ⟨hplus.1, hplus.2, (Except.ok.inj h).symm⟩
        · rename_i hplus
          split at h
          · cases h
          · rename_i hhost
            exact Or.inr ⟨hplus, hhost, (Except.ok.inj h).symm⟩

theorem unescape_append_inv {s rest t : Bytes} (hc : isHex c = false)
    (h : unescape (s ++ c :: rest) mode = .ok t) :
    ∃ t₁ t₂, unescape s mode = .ok t₁ ∧ unescape (c :: rest) mode = .ok t₂ ∧ t = t₁ ++ t₂ := by
  induction hlength : s.length using Nat.strongRecOn generalizing s t with
  | _ n ih =>
      cases s with
      | nil => exact ⟨[], t, rfl, h, rfl⟩
      | cons b s' =>
          simp only [List.length_cons] at hlength
          rw [List.cons_append] at h
          obtain ⟨x, y, rest', u, rfl, hshape, hx, hy, hallowed, hrest, rfl⟩ |
            ⟨u, hpercent, hrest, hstep⟩ := unescape_cons_cases h
          · have hinside : ∃ s'', s' = x :: y :: s'' ∧ rest' = s'' ++ c :: rest := by
              cases s' with
              | nil =>
                  rw [(List.cons.inj hshape).1, hx] at hc
                  cases hc
              | cons x' s'' =>
                  have htail := (List.cons.inj hshape).2
                  cases s'' with
                  | nil =>
                      rw [(List.cons.inj htail).1, hy] at hc
                      cases hc
                  | cons y' tail =>
                      refine ⟨tail, ?_, (List.cons.inj htail).2.symm⟩
                      rw [(List.cons.inj hshape).1, (List.cons.inj htail).1]
            obtain ⟨s'', rfl, rfl⟩ := hinside
            obtain ⟨t₁, t₂, h₁, h₂, rfl⟩ := ih s''.length (by simp at hlength; omega) hrest rfl
            refine ⟨(unhex x <<< 4 ||| unhex y) :: t₁, t₂, ?_, h₂, rfl⟩
            simp only [unescape]
            simp [hx, hy, hallowed, h₁, Except.map]
          · obtain ⟨t₁, t₂, h₁, h₂, rfl⟩ := ih s'.length (by omega) hrest rfl
            obtain ⟨rfl, rfl, rfl⟩ | ⟨hplus, hhost, rfl⟩ := hstep
            · refine ⟨32 :: t₁, t₂, ?_, h₂, rfl⟩
              rw [unescape.eq_def]
              simp [h₁, Except.map]
            · refine ⟨b :: t₁, t₂, ?_, h₂, rfl⟩
              rw [unescape.eq_def]
              simp [hpercent, hplus, hhost, h₁, Except.map]

theorem unescape_of_plain {s : Bytes} (hmode : mode ≠ .queryComponent) (hpercent : 37 ∉ s)
    (hhost : isHostMode mode = true → ∀ c ∈ s, c < 0x80 → shouldEscape c mode = false) :
    unescape s mode = .ok s := by
  induction s with
  | nil => rfl
  | cons c rest ih =>
      simp only [List.mem_cons, not_or] at hpercent
      have hrest := ih hpercent.2 fun h b hb => hhost h b (List.mem_cons_of_mem _ hb)
      have hc : ¬ (isHostMode mode = true ∧ c < 0x80 ∧ shouldEscape c mode = true) := by
        rintro ⟨hm, hlt, hescape⟩
        rw [hhost hm c List.mem_cons_self hlt] at hescape
        cases hescape
      rw [unescape.eq_def]
      simp [Ne.symm hpercent.1, hmode, hc, hrest, Except.map]

theorem unescape_induction {P : Bytes → Bytes → Prop} (hnil : P [] [])
    (hescape : ∀ x y s t, isHex x = true → isHex y = true → escapeAllowed x y mode = true →
      P s t → P (37 :: x :: y :: s) ((unhex x <<< 4 ||| unhex y) :: t)) (hbyte : ∀ c s t, c ≠ 37 →
      ¬ (isHostMode mode = true ∧ c < 0x80 ∧ shouldEscape c mode = true) →
      P s t → P (c :: s) ((if c = 43 ∧ mode = .queryComponent then 32 else c) :: t))
    (h : unescape s mode = .ok t) : P s t := by
  induction hlength : s.length using Nat.strongRecOn generalizing s t with
  | _ n ih =>
      cases s with
      | nil =>
          rw [unescape] at h
          obtain rfl := Except.ok.inj h
          exact hnil
      | cons c rest =>
          simp only [List.length_cons] at hlength
          obtain ⟨x, y, rest', u, rfl, rfl, hx, hy, hallowed, hrest, rfl⟩ |
            ⟨u, hpercent, hrest, hstep⟩ := unescape_cons_cases h
          · exact hescape x y rest' u hx hy hallowed
              (ih rest'.length (by simp at hlength; omega) hrest rfl)
          · have hnext := ih rest.length (by omega) hrest rfl
            obtain ⟨rfl, rfl, rfl⟩ | ⟨hplus, hhost, rfl⟩ := hstep
            · have hfree : ¬ (isHostMode .queryComponent = true ∧ (43 : UInt8) < 0x80 ∧
                  shouldEscape 43 .queryComponent = true) := by decide
              simpa using hbyte 43 rest u hpercent hfree hnext
            · have := hbyte c rest u hpercent hhost hnext
              rwa [if_neg hplus] at this

theorem isAscii_plus (c : UInt8) (mode : Encoding) :
    isAscii (if c = 43 ∧ mode = .queryComponent then 32 else c) = isAscii c := by
  split
  · rename_i hplus
    rw [hplus.1]
    decide
  · rfl

theorem countP_isAscii_unescape (h : unescape s mode = .ok t) :
    t.countP isAscii + 2 * s.count 37 ≤ s.countP isAscii := by
  refine unescape_induction (P := fun s t =>
    t.countP isAscii + 2 * s.count 37 ≤ s.countP isAscii) (by simp) ?_ ?_ h
  · intro x y s t hx hy _ ih
    have hpercent : isAscii 37 = true := by decide
    have hnx : ¬ (x == 37) = true := by simpa using ne_percent_of_isHex hx
    have hny : ¬ (y == 37) = true := by simpa using ne_percent_of_isHex hy
    simp only [List.countP_cons, List.count_cons, isAscii_of_isHex hx, isAscii_of_isHex hy,
      hpercent, hnx, hny, if_true, Bool.false_eq_true, if_false, beq_self_eq_true]
    split <;> omega
  · intro c s t hc _ ih
    have hnc : ¬ (c == 37) = true := by simpa using hc
    simp only [List.countP_cons, List.count_cons, isAscii_plus, hnc, Bool.false_eq_true, if_false]
    split <;> omega

theorem length_coerce_unescape_le (h : unescape s mode = .ok t) (hs : ∀ c ∈ s, isAscii c = true) :
    (coerce t).length ≤ s.length := by
  have hweight : t.length + 2 * t.countP (fun c => !isAscii c)
      ≤ s.length + 2 * s.countP fun c => !isAscii c := by
    refine unescape_induction (P := fun s t => t.length + 2 * t.countP (fun c => !isAscii c)
      ≤ s.length + 2 * s.countP fun c => !isAscii c) (by simp) ?_ ?_ h
    · intro x y s t hx hy _ ih
      simp only [List.length_cons, List.countP_cons]
      split <;> omega
    · intro c s t hc _ ih
      simp only [List.length_cons, List.countP_cons, isAscii_plus]
      omega
  have hascii : s.countP (fun c => !isAscii c) = 0 := by
    rw [List.countP_eq_zero]
    intro c hc
    simp [hs c hc]
  have hcoerce := length_coerce_le t
  omega

theorem coerce_unescape_ne (h : unescape s mode = .ok t) (hpercent : 37 ∈ s) : coerce t ≠ s := by
  intro heq
  have hcount := countP_isAscii_unescape h
  have hpos : 0 < s.count 37 := List.count_pos_iff.mpr hpercent
  have hascii : t.countP isAscii = s.countP isAscii := by
    rw [← heq, List.countP_eq_length_filter, List.countP_eq_length_filter,
      filter_isAscii_coerce]
  omega

end V2RootCore.Go.Url
