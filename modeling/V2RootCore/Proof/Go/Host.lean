import V2RootCore.Proof.Go.Url

/-!
# Hosts

Which bytes a parsed host is made of, and when a host name stays as it is if it is written in front
of a port without escaping it: when it has no percent sign and does not start with a bracket.
-/

namespace V2RootCore.Go.Url

open Utf8

variable {c : UInt8} {s host : Bytes}

/-! ### Bytes of a host -/

/-- The bytes a host may hold without escaping them. -/
def isHostByte (c : UInt8) : Bool := !isAscii c || !shouldEscape c .host

def isHostnameByte (c : UInt8) : Bool := isHostByte c || c = 37 || c = 32

theorem isHostnameByte_imp (hc : isHostnameByte c = true) :
    isDelimiter c = false ∧ c ≠ 64 ∧ isControl c = false := by
  -- the text of the characters is looked at for the few other bytes only
  have hother : ∀ c : UInt8, ¬(isDelimiter c = false ∧ c ≠ 64 ∧ isControl c = false) →
      isHostnameByte c = false := forall_byte (by decide +kernel)
  by_contra hno
  rw [hother c hno] at hc
  cases hc

theorem isHostByte_of_isDigit (hc : isDigit c = true) :
    isHostByte c = true ∧ c ≠ 37 ∧ c ≠ 58 ∧ c ≠ 64 ∧ c ≠ 93 := by
  have hescape : shouldEscape c .host = false := by
    rw [shouldEscape, isAlphanumeric, hc, Bool.or_true]
    rfl
  simp only [isDigit, Bool.and_eq_true, decide_eq_true_eq] at hc
  refine ⟨by rw [isHostByte, hescape, Bool.not_false, Bool.or_true], ?_⟩
  grind

theorem isHostByte_iff :
    isHostByte c = true ↔ ¬ (c < 0x80 ∧ shouldEscape c .host = true) := by
  simp only [isHostByte, isAscii, Bool.or_eq_true, Bool.not_eq_true', decide_eq_false_iff_not]
  rw [not_and_or, Bool.not_eq_true]

theorem shouldEscape_zone (c : UInt8) : shouldEscape c .zone = shouldEscape c .host := by
  simp [shouldEscape, isHostMode]

theorem unhex_lt {x : UInt8} (hx : isHex x = true) : (unhex x).toNat < 16 := (isHex_facts hx).2.2.2

theorem not_isAscii_of_unhex {x y : UInt8} (hx : isHex x = true) (hhigh : ¬ unhex x < 8) :
    isAscii (unhex x <<< 4 ||| unhex y) = false := by
  have hlt := unhex_lt hx
  have hge : 8 ≤ (unhex x).toNat := by simpa [UInt8.lt_iff_toNat_lt] using hhigh
  have hvalue : 0x80 ≤ (unhex x <<< 4 ||| unhex y).toNat := by
    rw [UInt8.toNat_or, UInt8.toNat_shiftLeft]
    refine le_trans ?_ Nat.left_le_or
    have hshift : (unhex x).toNat <<< 4 = 16 * (unhex x).toNat := by
      rw [Nat.shiftLeft_eq, Nat.mul_comm]
    simp only [UInt8.reduceToNat, Nat.reduceMod, hshift]
    omega
  refine decide_eq_false fun hascii => ?_
  have hsmall : (unhex x <<< 4 ||| unhex y).toNat < 0x80 := UInt8.lt_iff_toNat_lt.mp hascii
  omega

theorem mem_unescape_host {s t : Bytes} (h : unescape s .host = .ok t) :
    ∀ c ∈ t, isHostByte c = true ∨ c = 37 := by
  refine unescape_induction (P := fun _ t => ∀ c ∈ t, isHostByte c = true ∨ c = 37) ?_ ?_ ?_ h
  · simp
  · intro x y s t hx _ hallowed ih c hc
    rcases List.mem_cons.mp hc with rfl | hc
    · simp only [escapeAllowed, Bool.or_eq_true, Bool.not_eq_true', decide_eq_false_iff_not,
        Bool.and_eq_true, beq_iff_eq] at hallowed
      rcases hallowed with hhigh | ⟨rfl, rfl⟩
      · left
        rw [isHostByte, not_isAscii_of_unhex hx hhigh]
        rfl
      · right
        decide
    · exact ih c hc
  · intro c s t _ hraw ih b hb
    rcases List.mem_cons.mp hb with rfl | hb
    · left
      rw [if_neg (by simp), isHostByte_iff]
      exact fun hescape => hraw ⟨rfl, hescape⟩
    · exact ih b hb

theorem mem_unescape_zone {s t : Bytes} (h : unescape s .zone = .ok t) :
    ∀ c ∈ t, isHostnameByte c = true := by
  refine unescape_induction (P := fun _ t => ∀ c ∈ t, isHostnameByte c = true) ?_ ?_ ?_ h
  · simp
  · intro x y s t hx _ hallowed ih c hc
    rcases List.mem_cons.mp hc with rfl | hc
    · simp only [escapeAllowed, Bool.or_eq_true, Bool.not_eq_true', Bool.and_eq_true,
        beq_iff_eq] at hallowed
      rcases hallowed with (⟨rfl, rfl⟩ | hspace) | hhost
      · decide
      · rw [hspace]
        decide
      · simp [isHostnameByte, isHostByte, hhost]
    · exact ih c hc
  · intro c s t _ hraw ih b hb
    rcases List.mem_cons.mp hb with rfl | hb
    · have hhost : isHostByte c = true := by
        rw [isHostByte_iff, ← shouldEscape_zone]
        exact fun hescape => hraw ⟨rfl, hescape⟩
      simp [isHostnameByte, hhost]
    · exact ih b hb

/-! ### Ports and brackets -/

theorem splitHostPort_append {digits : Bytes} (hdigits : digits.all isDigit = true) (host : Bytes) :
    splitHostPort (host ++ 58 :: digits) = (stripBrackets host, digits) := by
  have hcolon : 58 ∉ digits := by
    intro hmem
    exact absurd (List.all_eq_true.mp hdigits 58 hmem) (by decide)
  rw [splitHostPort, cutLast_append hcolon]
  exact if_pos hdigits

theorem splitHostPort_bracket (host : Bytes) : (splitHostPort (host ++ [93])).2 = [] := by
  cases hcut : cutLast 58 (host ++ [93]) with
  | none => rw [splitHostPort, hcut]
  | some parts =>
      obtain ⟨before, after⟩ := parts
      obtain ⟨heq, -⟩ := cutLast_eq_some hcut
      have hafter : ¬ after.all isDigit = true := by
        intro hall
        have hlast : (58 :: after).getLast? = some 93 := by
          have := congrArg List.getLast? heq
          rw [List.getLast?_append, List.getLast?_append] at this
          simpa using this.symm
        have hmem : (93 : UInt8) ∈ 58 :: after := List.mem_of_getLast? hlast
        have h93 : (93 : UInt8) ∈ after := by simpa using hmem
        exact absurd (List.all_eq_true.mp hall 93 h93) (by decide)
      rw [splitHostPort, hcut]
      simp only [if_neg hafter]

theorem stripBrackets_sublist (host : Bytes) : (stripBrackets host).Sublist host := by
  unfold stripBrackets
  split
  · exact (List.dropLast_sublist _).trans (List.drop_sublist 1 host)
  · exact List.Sublist.refl host

theorem mem_stripBrackets {host : Bytes} (hc : c ∈ host) (hopen : c ≠ 91) (hclose : c ≠ 93) :
    c ∈ stripBrackets host := by
  unfold stripBrackets
  split
  · rename_i hbrackets
    obtain ⟨hhead, hlast⟩ := hbrackets
    cases host with
    | nil => cases hc
    | cons first rest =>
        obtain rfl : first = 91 := by simpa using hhead
        have hrest : c ∈ rest := by
          rcases List.mem_cons.mp hc with heq | hrest
          · exact absurd heq hopen
          · exact hrest
        have hne : rest ≠ [] := List.ne_nil_of_mem hrest
        have hlast' : rest.getLast hne = 93 := by
          rw [List.getLast?_cons_of_ne_nil hne, List.getLast?_eq_some_getLast hne] at hlast
          exact Option.some.inj hlast
        rw [← List.dropLast_append_getLast hne, List.mem_append, hlast', List.mem_singleton]
          at hrest
        exact hrest.resolve_right hclose
  · exact hc

theorem stripBrackets_of_head {host : Bytes} (h : host.head? ≠ some 91) :
    stripBrackets host = host := by
  rw [stripBrackets, if_neg]
  exact fun hbrackets => h hbrackets.1

/-! ### Parsing a host -/

theorem cutZone_eq_some {s before zone : Bytes} (h : cutZone s = some (before, zone)) :
    s = before ++ zone ∧ ∃ rest, zone = 37 :: 50 :: 53 :: rest := by
  induction s generalizing before with
  | nil => cases h
  | cons c rest ih =>
      rw [cutZone] at h
      split at h
      · rename_i hpercent
        obtain ⟨rfl, rfl⟩ := Prod.mk.inj (Option.some.inj h)
        obtain ⟨after, hafter⟩ := List.isPrefixOf_iff_prefix.mp hpercent
        exact ⟨rfl, after, hafter.symm⟩
      · obtain ⟨parts, hparts, heq⟩ := Option.map_eq_some_iff.mp h
        obtain ⟨rfl, rfl⟩ := Prod.mk.inj heq
        obtain ⟨heq, hzone⟩ := ih hparts
        exact ⟨by rw [heq, List.cons_append], hzone⟩

theorem unescape_of_isHostByte {s : Bytes} (h : ∀ c ∈ s, isHostByte c = true ∧ c ≠ 37) :
    unescape s .host = .ok s := by
  refine unescape_of_plain (by decide) (fun hmem => (h 37 hmem).2 rfl) ?_
  intro _ c hc hlt
  simpa [hlt] using isHostByte_iff.mp (h c hc).1

theorem validOptionalPort_bytes {colonPort : Bytes} (h : validOptionalPort colonPort = true) :
    ∀ c ∈ colonPort, isHostByte c = true ∧ c ≠ 37 := by
  cases colonPort with
  | nil => simp
  | cons colon digits =>
      simp only [validOptionalPort, Bool.and_eq_true, beq_iff_eq] at h
      intro c hc
      rcases List.mem_cons.mp hc with rfl | hc
      · rw [h.1]
        decide
      · have hdigit := isHostByte_of_isDigit (List.all_eq_true.mp h.2 c hc)
        exact ⟨hdigit.1, hdigit.2.1⟩

theorem unescape_colonPort {colonPort : Bytes} (h : validOptionalPort colonPort = true) :
    unescape (93 :: colonPort) .host = .ok (93 :: colonPort) := by
  refine unescape_of_isHostByte ?_
  intro c hc
  rcases List.mem_cons.mp hc with rfl | hc
  · decide
  · exact validOptionalPort_bytes h c hc

theorem parseHost_eq_ok (h : parseHost s = .ok host) :
    (unescape s .host = .ok host ∧ (s.head? = some 91 → ∃ inside colonPort,
      s = inside ++ 93 :: colonPort ∧ validOptionalPort colonPort = true)) ∨
      ∃ before zone colonPort host₁ host₂, s.head? = some 91 ∧
        s = before ++ (37 :: 50 :: 53 :: zone) ++ 93 :: colonPort ∧
        validOptionalPort colonPort = true ∧ unescape before .host = .ok host₁ ∧
        unescape (37 :: 50 :: 53 :: zone) .zone = .ok host₂ ∧
        host = host₁ ++ host₂ ++ 93 :: colonPort := by
  unfold parseHost at h
  split at h
  · rename_i hhead
    split at h
    · cases h
    · rename_i inside colonPort hcut
      obtain ⟨heq, hnot⟩ := cutLast_eq_some hcut
      split at h
      · rename_i hport
        split at h
        · rename_i before zone hzone
          obtain ⟨hinside, rest, rfl⟩ := cutZone_eq_some hzone
          obtain ⟨host₁, h₁, h⟩ := bind_eq_ok.mp h
          obtain ⟨host₂, h₂, h⟩ := bind_eq_ok.mp h
          rw [unescape_colonPort hport] at h
          exact Or.inr ⟨before, rest, colonPort, host₁, host₂, hhead, by rw [heq, hinside], hport,
            h₁, h₂, (Except.ok.inj h).symm⟩
        · exact Or.inl ⟨h, fun _ => ⟨inside, colonPort, heq, hport⟩⟩
      · cases h
  · rename_i hhead
    have hnone : s.head? = some 91 → ∃ inside colonPort,
        s = inside ++ 93 :: colonPort ∧ validOptionalPort colonPort = true :=
      fun hopen => absurd hopen hhead
    split at h
    · split at h
      · exact Or.inl ⟨h, hnone⟩
      · cases h
    · exact Or.inl ⟨h, hnone⟩

theorem isHostnameByte_of_unescape (h : unescape s .host = .ok host) :
    ∀ c ∈ host, isHostnameByte c = true := by
  intro c hc
  rcases mem_unescape_host h c hc with hhost | rfl
  · simp [isHostnameByte, hhost]
  · decide

theorem mem_parseHost (h : parseHost s = .ok host) :
    ∀ c ∈ host, isHostnameByte c = true := by
  obtain ⟨hplain, -⟩ | ⟨before, zone, colonPort, host₁, host₂, -, -, hport, h₁, h₂, rfl⟩ :=
    parseHost_eq_ok h
  · exact isHostnameByte_of_unescape hplain
  · intro c hc
    simp only [List.mem_append] at hc
    obtain (hc | hc) | hc := hc
    · exact isHostnameByte_of_unescape h₁ c hc
    · exact mem_unescape_zone h₂ c hc
    · exact isHostnameByte_of_unescape (unescape_colonPort hport) c hc

theorem head_unescape_zone {zone host : Bytes}
    (h : unescape (37 :: 50 :: 53 :: zone) .zone = .ok host) : 37 ∈ host := by
  obtain ⟨x, y, rest, t, -, hrest, -, -, -, -, rfl⟩ | ⟨t, hne, -⟩ := unescape_cons_cases h
  · obtain ⟨rfl, rfl, -⟩ : 50 = x ∧ 53 = y ∧ zone = rest := by simpa using hrest
    exact List.mem_cons.mpr (Or.inl (by decide))
  · exact absurd rfl hne

theorem percent_mem_hostname (h : parseHost s = .ok host) (hport : (splitHostPort host).2 ≠ [])
    (hspace : 32 ∈ (splitHostPort host).1) :
    37 ∈ (splitHostPort host).1 := by
  obtain ⟨hplain, -⟩ | ⟨before, zone, colonPort, host₁, host₂, -, -, hvalid, h₁, h₂, rfl⟩ :=
    parseHost_eq_ok h
  · have hmem : 32 ∈ host := by
      unfold splitHostPort at hspace
      split at hspace
      · rename_i name port hcut
        obtain ⟨rfl, -⟩ := cutLast_eq_some hcut
        split at hspace
        · exact List.mem_append_left _ ((stripBrackets_sublist _).subset hspace)
        · exact (stripBrackets_sublist _).subset hspace
      · exact (stripBrackets_sublist _).subset hspace
    exact absurd (mem_unescape_host hplain 32 hmem) (by decide)
  · cases colonPort with
    | nil => exact absurd (splitHostPort_bracket _) hport
    | cons c digits =>
        simp only [validOptionalPort, Bool.and_eq_true, beq_iff_eq] at hvalid
        obtain ⟨rfl, hdigits⟩ := hvalid
        have heq : host₁ ++ host₂ ++ 93 :: 58 :: digits
            = (host₁ ++ host₂ ++ [93]) ++ 58 :: digits := by simp
        rw [heq, splitHostPort_append hdigits]
        refine mem_stripBrackets ?_ (by decide) (by decide)
        simp [head_unescape_zone h₂]

theorem head_unescape_host (hhead : s.head? = some 91) (h : unescape s .host = .ok host) :
    host.head? = some 91 := by
  obtain ⟨rest, rfl⟩ := List.head?_eq_some_iff.mp hhead
  obtain ⟨_, _, _, _, hpercent, -⟩ | ⟨t, -, -, ⟨hplus, -⟩ | ⟨-, -, rfl⟩⟩ := unescape_cons_cases h
  · exact absurd hpercent (by decide)
  · exact absurd hplus (by decide)
  · rfl

theorem head_of_append_bracket {inside : Bytes} (h : (inside ++ [93]).head? = some 91) :
    inside.head? = some 91 := by
  cases inside with
  | nil => exact absurd h (by decide)
  | cons c rest => exact h

/-! ### Host names written in front of a port -/

section HostPort

variable {host digits : Bytes} (hdigits : digits.all isDigit = true) (hne : digits ≠ [])

include hdigits

theorem colonPort_bytes : ∀ c ∈ 58 :: digits, isHostByte c = true ∧ c ≠ 37 :=
  validOptionalPort_bytes (by simpa [validOptionalPort] using hdigits)

theorem parseHost_of_plain (hplain : ∀ c ∈ host, isHostByte c = true) (hpercent : 37 ∉ host)
    (hopen : host.head? ≠ some 91) :
    parseHost (host ++ 58 :: digits) = .ok (host ++ 58 :: digits) := by
  have hcolon : 58 ∉ digits := fun hmem =>
    (isHostByte_of_isDigit (List.all_eq_true.mp hdigits 58 hmem)).2.2.1 rfl
  have hhead : (host ++ 58 :: digits).head? ≠ some 91 := by
    cases host with
    | nil => simp
    | cons c rest => simpa using hopen
  rw [parseHost, if_neg hhead, cutLast_append hcolon]
  simp only [if_pos hdigits]
  refine unescape_of_isHostByte ?_
  intro c hc
  rcases List.mem_append.mp hc with hc | hc
  · refine ⟨hplain c hc, ?_⟩
    rintro rfl
    exact hpercent hc
  · exact colonPort_bytes hdigits c hc

include hne

theorem eq_of_bracket_port {inside colonPort : Bytes}
    (heq : host ++ 58 :: digits = inside ++ 93 :: colonPort)
    (hvalid : validOptionalPort colonPort = true) :
    host = inside ++ [93] ∧ colonPort = 58 :: digits := by
  have hcolon : ∀ {t : Bytes}, t.all isDigit = true → 58 ∉ t := fun ht hmem =>
    (isHostByte_of_isDigit (List.all_eq_true.mp ht 58 hmem)).2.2.1 rfl
  cases colonPort with
  | nil =>
      have hlast := congrArg List.getLast? heq
      rw [List.getLast?_append_cons, List.getLast?_append_cons,
        List.getLast?_cons_of_ne_nil hne] at hlast
      have hmem : 93 ∈ digits := List.mem_of_getLast? hlast
      exact absurd rfl (isHostByte_of_isDigit (List.all_eq_true.mp hdigits 93 hmem)).2.2.2.2
  | cons c rest =>
      simp only [validOptionalPort, Bool.and_eq_true, beq_iff_eq] at hvalid
      obtain ⟨rfl, hrest⟩ := hvalid
      have hcut : cutLast 58 (host ++ 58 :: digits) = cutLast 58 ((inside ++ [93]) ++ 58 :: rest) := by
        rw [heq, List.append_assoc]
        rfl
      rw [cutLast_append (hcolon hdigits), cutLast_append (hcolon hrest)] at hcut
      obtain ⟨rfl, rfl⟩ := Prod.mk.inj (Option.some.inj hcut)
      exact ⟨rfl, rfl⟩

variable {parsed : Bytes} (hparse : parseHost (host ++ 58 :: digits) = .ok parsed)

include hparse

theorem countP_hostname_lt (hopen : host.head? = some 91) :
    (splitHostPort parsed).1.countP isAscii < host.countP isAscii := by
  have hhead : (host ++ 58 :: digits).head? = some 91 := by
    rw [List.head?_append, hopen, Option.some_or]
  -- in both cases the bracket is the last byte of the host name and stays what it is
  have hstrip : ∀ {inside read : Bytes}, host = inside ++ [93] → read.head? = some 91 →
      read.countP isAscii ≤ inside.countP isAscii → parsed = read ++ 93 :: 58 :: digits →
      (splitHostPort parsed).1.countP isAscii < host.countP isAscii := by
    rintro inside read rfl hread hcount rfl
    obtain ⟨rest, rfl⟩ : ∃ rest, read = 91 :: rest := List.head?_eq_some_iff.mp hread
    have heq : 91 :: rest ++ 93 :: 58 :: digits = (91 :: rest ++ [93]) ++ 58 :: digits := by simp
    have hname : stripBrackets (91 :: rest ++ [93]) = rest := by
      rw [stripBrackets, if_pos ⟨rfl, List.getLast?_concat⟩]
      simp
    have hclose : (inside ++ [93]).countP isAscii = inside.countP isAscii + 1 := by
      rw [List.countP_append]
      rfl
    rw [heq, splitHostPort_append hdigits, hname, hclose]
    rw [List.countP_cons] at hcount
    exact Nat.lt_succ_of_le (le_trans (Nat.le_add_right _ _) hcount)
  obtain ⟨hplain, hclose⟩ | ⟨before, zone, colonPort, host₁, host₂, -, heq, hvalid, h₁, h₂, rfl⟩ :=
    parseHost_eq_ok hparse
  · obtain ⟨inside, colonPort, heq, hvalid⟩ := hclose hhead
    obtain ⟨rfl, rfl⟩ := eq_of_bracket_port hdigits hne heq hvalid
    rw [heq] at hplain
    obtain ⟨read, rest, hread, hrest, rfl⟩ := unescape_append_inv (by decide) hplain
    obtain rfl : rest = 93 :: 58 :: digits := by
      rw [unescape_colonPort hvalid] at hrest
      exact (Except.ok.inj hrest).symm
    have hcount := countP_isAscii_unescape hread
    exact hstrip rfl (head_unescape_host (head_of_append_bracket hopen) hread) (by omega) rfl
  · obtain ⟨rfl, rfl⟩ := eq_of_bracket_port hdigits hne heq hvalid
    have hcount₁ := countP_isAscii_unescape h₁
    have hcount₂ := countP_isAscii_unescape h₂
    have hbefore : before.head? = some 91 := by
      cases before with
      | nil => simp at hopen
      | cons c rest => simpa using hopen
    refine hstrip rfl ?_ ?_ rfl
    · rw [List.head?_append, head_unescape_host hbefore h₁, Option.some_or]
    · rw [List.countP_append, List.countP_append]
      omega

omit hne in
/-- A host name without brackets is unescaped by itself. -/
theorem exists_of_parseHost (hopen : host.head? ≠ some 91) :
    ∃ read, unescape host .host = .ok read ∧ parsed = read ++ 58 :: digits := by
  obtain ⟨hplain, -⟩ | ⟨before, zone, colonPort, host₁, host₂, hhead, -⟩ := parseHost_eq_ok hparse
  · obtain ⟨read, rest, hread, hrest, rfl⟩ := unescape_append_inv (by decide) hplain
    obtain rfl : rest = 58 :: digits := by
      rw [unescape_of_isHostByte (colonPort_bytes hdigits)] at hrest
      exact (Except.ok.inj hrest).symm
    exact ⟨read, hread, rfl⟩
  · cases host with
    | nil => simp at hhead
    | cons c rest => exact absurd hhead hopen

/-- **A host name read back from in front of a port.** It is the one that was written only if it has
no percent sign and does not start with a bracket. -/
theorem plain_of_parseHost (hsame : coerce (splitHostPort parsed).1 = host) :
    37 ∉ host ∧ host.head? ≠ some 91 := by
  have hcount : (splitHostPort parsed).1.countP isAscii = host.countP isAscii := by
    rw [← hsame, List.countP_eq_length_filter, List.countP_eq_length_filter, filter_isAscii_coerce]
  have hopen : host.head? ≠ some 91 := fun hopen =>
    absurd hcount (ne_of_lt (countP_hostname_lt hdigits hne hparse hopen))
  refine ⟨?_, hopen⟩
  obtain ⟨read, hread, rfl⟩ := exists_of_parseHost hdigits hparse hopen
  rw [splitHostPort_append hdigits] at hcount
  have hread := countP_isAscii_unescape hread
  have hstrip := (stripBrackets_sublist read).countP_le (p := isAscii)
  have hzero : host.count 37 = 0 := by
    simp only at hcount
    omega
  exact List.count_eq_zero.mp hzero

omit hne in
theorem port_of_parseHost (hopen : host.head? ≠ some 91) : (splitHostPort parsed).2 = digits := by
  obtain ⟨read, -, rfl⟩ := exists_of_parseHost hdigits hparse hopen
  rw [splitHostPort_append hdigits]

end HostPort

end V2RootCore.Go.Url
