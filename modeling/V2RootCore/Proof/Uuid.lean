import V2RootCore.Uuid
import V2RootCore.Proof.Go.Slices

/-!
# What a UUID text may be

The loop takes a dash before each of the five groups if there is one. Only the total length was checked, so before
the last group one byte may be missing, and what is left behind it is not looked at.
-/

namespace V2RootCore.Uuid

open Go

section Hex

def isHex (c : UInt8) : Bool := (Net.hexDigit c).isSome

/-- The lower case of an ASCII letter. -/
def lower (c : UInt8) : UInt8 := if 65 ≤ c ∧ c ≤ 90 then c + 32 else c

theorem hexDigit_spec {c : UInt8} {n : Nat} (h : Net.hexDigit c = some n) :
    n < 16 ∧ c ≠ 45 ∧ lower c = hextable n := by
  have hlt := c.toNat_lt
  unfold Net.hexDigit isDigit at h
  simp only [Bool.and_eq_true, decide_eq_true_eq, UInt8.le_iff_toNat_le] at h
  unfold lower hextable
  simp only [UInt8.le_iff_toNat_le, ne_eq, ← UInt8.toNat_inj] at h ⊢
  have h45 : (45 : UInt8).toNat = 45 := rfl
  have hbounds : (48 : UInt8).toNat = 48 ∧ (57 : UInt8).toNat = 57 ∧ (65 : UInt8).toNat = 65 ∧
    (70 : UInt8).toNat = 70 ∧ (90 : UInt8).toNat = 90 ∧ (97 : UInt8).toNat = 97 ∧ (102 : UInt8).toNat = 102 ∧
    (32 : UInt8).toNat = 32 := ⟨rfl, rfl, rfl, rfl, rfl, rfl, rfl, rfl⟩
  split_ifs at h with hdigit hsmall hlarge
  all_goals
    obtain rfl := Option.some.inj h
    refine ⟨by omega, by omega, ?_⟩
    split_ifs <;> simp only [UInt8.toNat_add, UInt8.toNat_ofNat'] <;> omega

theorem hexDigit_hextable {n : Nat} (h : n < 16) : Net.hexDigit (hextable n) = some n := by
  interval_cases n <;> rfl

theorem decode_encodeToString (bytes : Bytes) : decode (encodeToString bytes) = .ok bytes := by
  induction bytes with
  | nil => rfl
  | cons v bytes ih =>
      have hv := v.toNat_lt
      rw [encodeToString, List.flatMap_cons, ← encodeToString, List.cons_append, List.singleton_append, decode,
        hexDigit_hextable (by omega), hexDigit_hextable (by omega)]
      dsimp only
      rw [ih, ok_bind, show 16 * (v.toNat / 16) + v.toNat % 16 = v.toNat by omega, UInt8.ofNat_toNat]

theorem encodeToString_injective {bytes bytes' : Bytes} (h : encodeToString bytes = encodeToString bytes') :
    bytes = bytes' := by
  have hdecode := decode_encodeToString bytes
  rw [h, decode_encodeToString] at hdecode
  exact (Except.ok.inj hdecode).symm

theorem encodeToString_append (bytes bytes' : Bytes) :
    encodeToString (bytes ++ bytes') = encodeToString bytes ++ encodeToString bytes' := List.flatMap_append

theorem isHex_encodeToString {bytes : Bytes} {c : UInt8} (h : c ∈ encodeToString bytes) : isHex c = true := by
  obtain ⟨v, -, hc⟩ := List.mem_flatMap.mp h
  have hv := v.toNat_lt
  obtain rfl | rfl : c = hextable (v.toNat / 16) ∨ c = hextable (v.toNat % 16) := by simpa using hc
  · rw [isHex, hexDigit_hextable (by omega)]
    rfl
  · rw [isHex, hexDigit_hextable (by omega)]
    rfl

theorem map_lower_encodeToString (bytes : Bytes) : (encodeToString bytes).map lower = encodeToString bytes := by
  refine (List.map_congr_left fun c hc => ?_).trans (List.map_id _)
  obtain ⟨v, -, hc⟩ := List.mem_flatMap.mp hc
  have hv := v.toNat_lt
  obtain rfl | rfl : c = hextable (v.toNat / 16) ∨ c = hextable (v.toNat % 16) := by simpa using hc
  · exact (hexDigit_spec (hexDigit_hextable (by omega))).2.2
  · exact (hexDigit_spec (hexDigit_hextable (by omega))).2.2

/-- Decoding an even number of bytes. -/
theorem decode_cases {digits : Bytes} (heven : Even digits.length) :
    (digits.all isHex = true ∧ ∃ b, decode digits = .ok b ∧ digits.map lower = encodeToString b) ∨
      (digits.all isHex = false ∧ ∃ err, decode digits = .error err ∧ err ≠ .panicked) := by
  induction digits using decode.induct with
  | case1 => exact .inl ⟨rfl, [], rfl, rfl⟩
  | case2 c => exact absurd heven (by simp)
  | case3 p q digits a b hq hp ih =>
      have hall : (p :: q :: digits).all isHex = digits.all isHex := by simp [isHex, hp, hq]
      have heven' : Even digits.length := by
        rw [List.length_cons, List.length_cons] at heven
        grind
      rw [hall, decode, hp, hq]
      obtain ⟨hhex, dst, hdst, hlower⟩ | ⟨hbad, err, herr, hpanic⟩ := ih heven'
      · obtain ⟨ha, -, hpa⟩ := hexDigit_spec hp
        obtain ⟨hb, -, hqb⟩ := hexDigit_spec hq
        refine .inl ⟨hhex, UInt8.ofNat (16 * a + b) :: dst, by rw [hdst]; rfl, ?_⟩
        rw [List.map_cons, List.map_cons, hlower, hpa, hqb, encodeToString, encodeToString, List.flatMap_cons,
          UInt8.toNat_ofNat', Nat.mod_eq_of_lt (by omega), show (16 * a + b) / 16 = a by omega,
          show (16 * a + b) % 16 = b by omega]
        rfl
      · exact .inr ⟨hbad, err, by rw [herr]; rfl, hpanic⟩
  | case4 p q digits hnot =>
      refine .inr ⟨?_, .new (ascii "encoding/hex: invalid byte"), ?_, fun h => by cases h⟩
      · cases hp : Net.hexDigit p with
        | none => simp [isHex, hp]
        | some a =>
            cases hq : Net.hexDigit q with
            | none => simp [isHex, hq]
            | some b => exact (hnot a b hp hq).elim
      · rw [decode]
        split
        · next a b hp hq => exact (hnot a b hp hq).elim
        · rfl

end Hex

section Groups

/-- What is left behind a dash that the loop takes. -/
def strip (text : Bytes) : Bytes := if text.head? = some 45 then text.tail else text

/-- The text begins with groups of hex digits. -/
def Groups : List Nat → Bytes → Prop
  | [], _ => True
  | group :: groups, text =>
      group ≤ (strip text).length ∧ ((strip text).take group).all isHex = true ∧
        Groups groups ((strip text).drop group)

def remaining : List Nat → Bytes → Bytes
  | [], text => text
  | group :: groups, text => remaining groups ((strip text).drop group)

def digitsOf : List Nat → Bytes → Bytes
  | [], _ => []
  | group :: groups, text => (strip text).take group ++ digitsOf groups ((strip text).drop group)

theorem groups_append (front back : List Nat) (text : Bytes) :
    (Groups (front ++ back) text ↔ Groups front text ∧ Groups back (remaining front text)) ∧
      digitsOf (front ++ back) text = digitsOf front text ++ digitsOf back (remaining front text) := by
  induction front generalizing text with
  | nil => exact ⟨(and_iff_right trivial).symm, rfl⟩
  | cons group front ih =>
      obtain ⟨hgroups, hdigits⟩ := ih ((strip text).drop group)
      rw [List.cons_append, Groups, Groups, remaining, digitsOf, digitsOf, hgroups, hdigits, List.append_assoc,
        and_assoc, and_assoc]
      exact ⟨Iff.rfl, rfl⟩

theorem skipDash_eq {text : Bytes} (h : text ≠ []) : skipDash text = .ok (strip text) := by
  obtain ⟨c, text, rfl⟩ := List.exists_cons_of_ne_nil h
  have hfirst : byteAt (c :: text) 0 = .ok c := by
    rw [byteAt, if_pos ⟨le_rfl, by rw [List.length_cons]; omega⟩]
    rfl
  rw [skipDash, hfirst, ok_bind, strip]
  simp only [List.head?_cons, Option.some_inj]
  split_ifs with hdash
  · rw [sliceFrom, slice, if_pos (by rw [List.length_cons]; omega), Int.toNat_natCast, List.take_length]
    rfl
  · rfl

theorem length_strip (text : Bytes) :
    (strip text).length ≤ text.length ∧ text.length ≤ (strip text).length + 1 := by
  unfold strip
  split_ifs
  · rw [List.length_tail]
    omega
  · omega

variable {group : Nat} {groups front : List Nat} {text : Bytes}

theorem parseGroups_short (hshort : (strip text).length < group) :
    parseGroups (group :: groups) text = .error .panicked := by
  rw [parseGroups]
  by_cases hnil : text = []
  · rw [hnil]
    rfl
  · rw [skipDash_eq hnil, ok_bind, slice, if_neg (by omega)]
    rfl

/-- One group, if there are enough bytes for it. -/
theorem parseGroups_cons (groups : List Nat) (heven : Even group) (hpos : 0 < group)
    (hroom : group ≤ (strip text).length) :
    (((strip text).take group).all isHex = true ∧ ∃ b, ((strip text).take group).map lower = encodeToString b ∧
        parseGroups (group :: groups) text =
          parseGroups groups ((strip text).drop group) >>= fun rest => .ok (b ++ rest)) ∨
      (((strip text).take group).all isHex = false ∧
        ∃ err, parseGroups (group :: groups) text = .error err ∧ err ≠ .panicked) := by
  have hne : text ≠ [] := by
    rintro rfl
    exact absurd hroom (not_le.mpr hpos)
  have hdigits : slice (strip text) 0 group = .ok ((strip text).take group) := by
    rw [slice, if_pos (by omega), Int.toNat_natCast]
    rfl
  have hrest : sliceFrom (strip text) group = .ok ((strip text).drop group) := by
    rw [sliceFrom, slice, if_pos (by omega), Int.toNat_natCast, Int.toNat_natCast, List.take_length]
  have hlength : Even ((strip text).take group).length := by
    rw [List.length_take_of_le hroom]
    exact heven
  rw [parseGroups, skipDash_eq hne, ok_bind, hdigits, ok_bind]
  obtain ⟨hhex, b, hb, hlower⟩ | ⟨hbad, err, herr, hpanic⟩ := decode_cases hlength
  · refine .inl ⟨hhex, b, hlower, ?_⟩
    rw [hb, ok_bind, hrest, ok_bind]
  · refine .inr ⟨hbad, err, ?_, hpanic⟩
    rw [herr]
    rfl

/-- The groups in front are read, whatever comes behind them. -/
theorem parseGroups_front (hgroups : ∀ group ∈ front, Even group ∧ 0 < group) (h : Groups front text)
    (groups : List Nat) : ∃ b, (digitsOf front text).map lower = encodeToString b ∧
      parseGroups (front ++ groups) text =
        parseGroups groups (remaining front text) >>= fun rest => .ok (b ++ rest) := by
  induction front generalizing text with
  | nil =>
      refine ⟨[], rfl, ?_⟩
      rw [List.nil_append, remaining]
      cases parseGroups groups text <;> rfl
  | cons group front ih =>
      obtain ⟨hgroup, hfront⟩ := List.forall_mem_cons.mp hgroups
      obtain ⟨hroom, hhex, hmore⟩ := h
      obtain ⟨-, b, hlower, heq⟩ | ⟨hbad, -⟩ := parseGroups_cons (front ++ groups) hgroup.1 hgroup.2 hroom
      · obtain ⟨b', hlower', heq'⟩ := ih hfront hmore
        refine ⟨b ++ b', ?_, ?_⟩
        · rw [digitsOf, List.map_append, hlower, hlower', encodeToString_append]
        · rw [List.cons_append, heq, heq', remaining]
          cases parseGroups groups (remaining front ((strip text).drop group)) with
          | error err => rfl
          | ok rest =>
              rw [ok_bind, ok_bind, ok_bind, List.append_assoc]
      · rw [hhex] at hbad
        cases hbad

/-- With enough bytes for all of the groups in front, one that is not of hex digits is an error. -/
theorem parseGroups_bad (hgroups : ∀ group ∈ front, Even group ∧ 0 < group)
    (hroom : front.sum + front.length ≤ text.length) (h : ¬Groups front text) (groups : List Nat) :
    ∃ err, parseGroups (front ++ groups) text = .error err ∧ err ≠ .panicked := by
  induction front generalizing text with
  | nil => exact absurd trivial h
  | cons group front ih =>
      obtain ⟨hgroup, hfront⟩ := List.forall_mem_cons.mp hgroups
      have hstrip := length_strip text
      rw [List.sum_cons, List.length_cons] at hroom
      have hfits : group ≤ (strip text).length := by omega
      obtain ⟨hhex, b, hlower, heq⟩ | ⟨-, err, herr, hpanic⟩ :=
        parseGroups_cons (front ++ groups) hgroup.1 hgroup.2 hfits
      · have hnot : ¬Groups front ((strip text).drop group) := fun hmore => h ⟨hfits, hhex, hmore⟩
        obtain ⟨err, herr, hpanic⟩ := ih hfront (by rw [List.length_drop]; omega) hnot
        refine ⟨err, ?_, hpanic⟩
        rw [List.cons_append, heq, herr]
        rfl
      · exact ⟨err, herr, hpanic⟩

end Groups

section Layout

/-- Groups with the dashes before them. -/
def layout (parts : List (Bool × Bytes)) : Bytes :=
  parts.flatMap fun part => (if part.1 then [45] else []) ++ part.2

/-- The sizes of groups of hex digits. -/
structure Sized (groups : List Nat) (parts : List (Bool × Bytes)) : Prop where
  sizes : parts.map (fun part => part.2.length) = groups
  pos : ∀ part ∈ parts, 0 < part.2.length
  hex : ∀ part ∈ parts, part.2.all isHex = true

theorem ne_dash_of_isHex {c : UInt8} (h : isHex c = true) : c ≠ 45 := by
  obtain ⟨n, hn⟩ := Option.isSome_iff_exists.mp h
  exact (hexDigit_spec hn).2.1

theorem strip_part {dash : Bool} {digits : Bytes} (hpos : 0 < digits.length) (hhex : digits.all isHex = true)
    (tail : Bytes) : strip ((if dash then [45] else []) ++ digits ++ tail) = digits ++ tail := by
  obtain ⟨c, digits, rfl⟩ := List.exists_cons_of_length_pos hpos
  have hc : c ≠ 45 := ne_dash_of_isHex (List.all_eq_true.mp hhex c List.mem_cons_self)
  cases dash with
  | false => exact if_neg (by simpa using hc)
  | true => rfl

theorem layout_spec {groups : List Nat} {parts : List (Bool × Bytes)} (h : Sized groups parts) (tail : Bytes) :
    Groups groups (layout parts ++ tail) ∧ remaining groups (layout parts ++ tail) = tail ∧
      digitsOf groups (layout parts ++ tail) = parts.flatMap Prod.snd := by
  induction parts generalizing groups with
  | nil =>
      obtain rfl := h.sizes
      exact ⟨trivial, rfl, rfl⟩
  | cons part parts ih =>
      obtain ⟨rfl, hpos, hhex⟩ := h
      obtain ⟨hpos, hpos'⟩ := List.forall_mem_cons.mp hpos
      obtain ⟨hhex, hhex'⟩ := List.forall_mem_cons.mp hhex
      obtain ⟨hgroups, hremaining, hdigits⟩ := ih ⟨rfl, hpos', hhex'⟩
      have hstrip : strip (layout (part :: parts) ++ tail) = part.2 ++ (layout parts ++ tail) := by
        rw [layout, List.flatMap_cons, List.append_assoc]
        exact strip_part hpos hhex _
      rw [List.map_cons, Groups, remaining, digitsOf, hstrip, List.take_left, List.drop_left, List.length_append]
      exact ⟨⟨Nat.le_add_right _ _, hhex, hgroups⟩, hremaining, by rw [hdigits, List.flatMap_cons]⟩

theorem exists_layout {groups : List Nat} (hpos : ∀ group ∈ groups, 0 < group) {text : Bytes}
    (h : Groups groups text) :
    ∃ parts, Sized groups parts ∧ text = layout parts ++ remaining groups text ∧
      ∀ part, parts.head? = some part → (part.1 = true ↔ text.head? = some 45) := by
  induction groups generalizing text with
  | nil => exact ⟨[], ⟨rfl, by simp, by simp⟩, rfl, by simp⟩
  | cons group groups ih =>
      obtain ⟨hgroup, hgroups⟩ := List.forall_mem_cons.mp hpos
      obtain ⟨hroom, hhex, hmore⟩ := h
      obtain ⟨parts, hsized, heq, -⟩ := ih hgroups hmore
      have hlength : ((strip text).take group).length = group := List.length_take_of_le hroom
      refine ⟨(decide (text.head? = some 45), (strip text).take group) :: parts, ⟨?_, ?_, ?_⟩, ?_, ?_⟩
      · rw [List.map_cons, hsized.sizes, hlength]
      · exact List.forall_mem_cons.mpr ⟨hlength.symm ▸ hgroup, hsized.pos⟩
      · exact List.forall_mem_cons.mpr ⟨hhex, hsized.hex⟩
      · rw [layout, List.flatMap_cons, ← layout, List.append_assoc, List.append_assoc, remaining, ← heq,
          List.take_append_drop, strip]
        by_cases hdash : text.head? = some 45
        · obtain ⟨tail, rfl⟩ := List.head?_eq_some_iff.mp hdash
          rfl
        · rw [if_neg hdash, decide_eq_false hdash]
          rfl
      · intro part hpart
        obtain rfl := Option.some.inj hpart
        exact decide_eq_true_iff

/-- The text of the digits of an id, with dashes only at the four boundaries of its groups. -/
def Written (u text : Bytes) : Prop :=
  ∃ parts, Sized byteGroups parts ∧ text = layout parts ∧ parts.head?.map Prod.fst = some false ∧
    (parts.flatMap Prod.snd).map lower = encodeToString u

/-- Texts of one id differ only in dashes and letter case. -/
theorem Written.undashed {u text : Bytes} (h : Written u text) :
    (text.filter (· ≠ 45)).map lower = encodeToString u := by
  obtain ⟨parts, hsized, rfl, -, hdigits⟩ := h
  rw [← hdigits]
  refine congrArg _ ?_
  have hhex := hsized.hex
  clear hsized hdigits
  induction parts with
  | nil => rfl
  | cons part parts ih =>
      obtain ⟨hpart, hparts⟩ := List.forall_mem_cons.mp hhex
      have hdigits : part.2.filter (· ≠ 45) = part.2 := List.filter_eq_self.mpr fun c hc => by
        simpa using ne_dash_of_isHex (List.all_eq_true.mp hpart c hc)
      have hdash : (if part.1 = true then [45] else [] : Bytes).filter (· ≠ 45) = [] := by
        split_ifs <;> rfl
      rw [layout, List.flatMap_cons, ← layout, List.filter_append, List.filter_append, hdigits, hdash, ih hparts,
        List.flatMap_cons]
      rfl

theorem length_encodeToString (bytes : Bytes) : (encodeToString bytes).length = 2 * bytes.length := by
  induction bytes with
  | nil => rfl
  | cons v bytes ih =>
      rw [encodeToString, List.flatMap_cons, ← encodeToString, List.length_append, ih, List.length_cons]
      exact Nat.add_comm _ _

theorem stringGroups_spec {groups : List Nat} (hgroups : ∀ group ∈ groups, Even group ∧ 0 < group) {bytes : Bytes}
    (hbytes : 2 * bytes.length = groups.sum) : ∃ parts, Sized groups parts ∧
      stringGroups groups bytes = layout parts ∧ parts.flatMap Prod.snd = encodeToString bytes ∧
      (stringGroups groups bytes).length = groups.sum + groups.length := by
  induction groups generalizing bytes with
  | nil =>
      obtain rfl : bytes = [] := List.length_eq_zero_iff.mp (by rw [List.sum_nil] at hbytes; omega)
      exact ⟨[], ⟨rfl, by simp, by simp⟩, rfl, rfl, rfl⟩
  | cons group groups ih =>
      obtain ⟨⟨heven, hpos⟩, hgroups'⟩ := List.forall_mem_cons.mp hgroups
      rw [List.sum_cons] at hbytes
      obtain ⟨half, rfl⟩ := heven
      have hhalf : (half + half) / 2 = half := by omega
      have hrest : 2 * (bytes.drop half).length = groups.sum := by
        rw [List.length_drop]
        omega
      obtain ⟨parts, hsized, heq, hdigits, hlength⟩ := ih hgroups' hrest
      have hfirst : (encodeToString (bytes.take half)).length = half + half := by
        rw [length_encodeToString, List.length_take]
        omega
      refine ⟨(true, encodeToString (bytes.take half)) :: parts, ⟨?_, ?_, ?_⟩, ?_, ?_, ?_⟩
      · rw [List.map_cons, hsized.sizes, hfirst]
      · exact List.forall_mem_cons.mpr ⟨hfirst.symm ▸ hpos, hsized.pos⟩
      · exact List.forall_mem_cons.mpr ⟨List.all_eq_true.mpr fun c => isHex_encodeToString, hsized.hex⟩
      · rw [stringGroups, hhalf, heq, layout, layout, List.flatMap_cons]
        rfl
      · rw [List.flatMap_cons, hdigits, ← encodeToString_append, List.take_append_drop]
      · rw [stringGroups, hhalf, List.length_append, List.length_append, hlength, hfirst, List.sum_cons,
          List.length_cons]
        change 1 + _ + _ = _
        omega

end Layout

section Parse

variable (sha1 : Bytes → List.Vector UInt8 20)

def frontGroups : List Nat := [8, 4, 4, 4]

theorem frontGroups_spec : ∀ group ∈ frontGroups, Even group ∧ 0 < group := by decide

/-- A text that is accepted is one of the id, and no text makes the parser panic. -/
def Faithful (text : Bytes) : Prop :=
  parseString sha1 text ≠ .error .panicked ∧
    ∀ u, 32 ≤ text.length → text.length ≤ 36 → parseString sha1 text = .ok u → Written u text

/-- Behind four groups of hex digits there are twelve bytes, and if these are hex digits as well, then nothing comes
behind them and the text does not begin with a dash. -/
def Ends (text : Bytes) : Prop :=
  Groups frontGroups text → 12 ≤ (strip (remaining frontGroups text)).length ∧
    (((strip (remaining frontGroups text)).take 12).all isHex = true →
      (strip (remaining frontGroups text)).length = 12 ∧ text.head? ≠ some 45)

/-- An accepted text is one of its id exactly if nothing is left and it does not begin with a dash. -/
theorem written_iff {text u : Bytes} (hgroups : Groups byteGroups text)
    (hu : (digitsOf byteGroups text).map lower = encodeToString u) :
    Written u text ↔ (strip (remaining frontGroups text)).length = 12 ∧ text.head? ≠ some 45 := by
  have hpos : ∀ group ∈ byteGroups, 0 < group := by decide
  constructor
  · rintro ⟨parts, hsized, rfl, hfirst, -⟩
    have hsplit : parts.map (fun part => part.2.length) = frontGroups ++ [12] := hsized.sizes
    obtain ⟨front, back, rfl, hfront, hback⟩ := List.map_eq_append_iff.mp hsplit
    obtain ⟨last, rfl, hlast⟩ := List.map_eq_singleton_iff.mp hback
    have hfront' : Sized frontGroups front :=
      ⟨hfront, fun part hpart => hsized.pos part (List.mem_append_left _ hpart),
        fun part hpart => hsized.hex part (List.mem_append_left _ hpart)⟩
    have hmem : last ∈ front ++ [last] := List.mem_append_right _ List.mem_cons_self
    have hremaining : remaining frontGroups (layout (front ++ [last])) = layout [last] := by
      rw [layout, List.flatMap_append]
      exact (layout_spec hfront' _).2.1
    have hstrip : strip (layout [last]) = last.2 :=
      (strip_part (hsized.pos last hmem) (hsized.hex last hmem) []).trans (List.append_nil _)
    rw [hremaining, hstrip]
    refine ⟨hlast, fun hdash => ?_⟩
    obtain ⟨first, rest, hparts⟩ : ∃ first rest, front ++ [last] = first :: rest :=
      List.exists_cons_of_ne_nil (List.append_ne_nil_of_right_ne_nil _ (List.cons_ne_nil _ _))
    have hmem' : first ∈ front ++ [last] := hparts ▸ List.mem_cons_self
    obtain ⟨c, digits, hdigits⟩ := List.exists_cons_of_length_pos (hsized.pos first hmem')
    have hhex : isHex c = true :=
      List.all_eq_true.mp (hsized.hex first hmem') c (hdigits ▸ List.mem_cons_self)
    rw [hparts, List.head?_cons, Option.map_some, Option.some_inj] at hfirst
    rw [hparts, layout, List.flatMap_cons, hfirst, hdigits] at hdash
    exact ne_dash_of_isHex hhex (Option.some.inj hdash)
  · rintro ⟨hlength, hdash⟩
    obtain ⟨parts, hsized, heq, hhead⟩ := exists_layout hpos hgroups
    have hnil : remaining byteGroups text = [] := List.drop_of_length_le hlength.le
    rw [hnil, List.append_nil] at heq
    have hdigits := (layout_spec hsized []).2.2
    rw [List.append_nil, ← heq] at hdigits
    obtain ⟨first, rest, rfl⟩ : ∃ first rest, parts = first :: rest := by
      refine List.exists_cons_of_ne_nil ?_
      rintro rfl
      exact absurd hsized.sizes (by decide)
    refine ⟨_, hsized, heq, ?_, by rw [← hdigits, hu]⟩
    have hfalse := (hhead first rfl).not.mpr hdash
    rw [List.head?_cons, Option.map_some, Bool.eq_false_iff.mpr hfalse]

theorem faithful_iff (text : Bytes) : Faithful sha1 text ↔ (32 ≤ text.length → text.length ≤ 36 → Ends text) := by
  by_cases hlength : 32 ≤ text.length ∧ text.length ≤ 36
  · obtain ⟨hlow, hhigh⟩ := hlength
    have hparse : parseString sha1 text = parseGroups (frontGroups ++ [12]) text := by
      rw [parseString, if_neg (by omega)]
      rfl
    have hfaithful : Faithful sha1 text ↔ parseGroups (frontGroups ++ [12]) text ≠ .error .panicked ∧
        ∀ u, parseGroups (frontGroups ++ [12]) text = .ok u → Written u text := by
      rw [Faithful, hparse, forall_comm]
      simp only [hlow, hhigh, forall_true_left]
    rw [hfaithful, forall_prop_of_true hlow, forall_prop_of_true hhigh]
    by_cases hfront : Groups frontGroups text
    · obtain ⟨b, hb, hgroups⟩ := parseGroups_front frontGroups_spec hfront [12]
      have hends : Ends text ↔ _ := forall_prop_of_true hfront
      rw [hgroups, hends]
      by_cases hroom : 12 ≤ (strip (remaining frontGroups text)).length
      · obtain ⟨hhex, b', hb', hlast⟩ | ⟨hbad, err, herr, hpanic⟩ :=
          parseGroups_cons [] (show Even 12 by decide) (by decide) hroom
        · obtain ⟨happend, hdigits⟩ := groups_append frontGroups [12] text
          have hall : Groups byteGroups text := happend.mpr ⟨hfront, hroom, hhex, trivial⟩
          have hu : (digitsOf (frontGroups ++ [12]) text).map lower = encodeToString (b ++ b') := by
            rw [hdigits, List.map_append, hb, digitsOf, digitsOf, List.append_nil, hb', encodeToString_append]
          have hok : (parseGroups [12] (remaining frontGroups text) >>= fun rest => .ok (b ++ rest)) =
              Except.ok (b ++ b') := by
            rw [hlast, parseGroups, ok_bind, ok_bind, List.append_nil]
          rw [hok, hhex, forall_prop_of_true rfl, and_iff_right hroom, ← written_iff hall hu]
          constructor
          · exact fun h => h.2 _ rfl
          · refine fun h => ⟨(fun hpanic => by cases hpanic), fun u hu => ?_⟩
            obtain rfl := Except.ok.inj hu
            exact h
        · rw [herr, hbad]
          refine iff_of_true ⟨fun h => hpanic (Except.error.inj h), fun u h => by cases h⟩
            ⟨hroom, fun h => by cases h⟩
      · rw [parseGroups_short (not_le.mp hroom)]
        exact iff_of_false (fun h => h.1 rfl) fun h => hroom h.1
    · obtain ⟨err, herr, hpanic⟩ := parseGroups_bad frontGroups_spec (show 24 ≤ text.length by omega) hfront [12]
      rw [herr]
      exact iff_of_true ⟨fun h => hpanic (Except.error.inj h), fun u h => by cases h⟩ fun h => absurd h hfront
  · refine iff_of_true ⟨?_, fun u hlow hhigh => absurd ⟨hlow, hhigh⟩ hlength⟩ fun hlow hhigh =>
      absurd ⟨hlow, hhigh⟩ hlength
    rw [parseString, if_pos (by omega)]
    split_ifs <;> exact fun h => by cases h

theorem parseString_string (u : List.Vector UInt8 16) : parseString sha1 (string u) = .ok u.toList := by
  have hu := u.toList_length
  have hrest : 2 * (u.toList.drop 4).length = byteGroups.tail.sum := by
    rw [List.length_drop, hu]
    rfl
  obtain ⟨parts, hsized, hgroups, hdigits, hlength⟩ := stringGroups_spec (by decide) hrest
  have hfirst : (encodeToString (u.toList.take 4)).length = 8 := by
    rw [length_encodeToString, List.length_take, hu]
    rfl
  have hsized' : Sized byteGroups ((false, encodeToString (u.toList.take 4)) :: parts) := by
    refine ⟨?_, List.forall_mem_cons.mpr ⟨by rw [hfirst]; decide, hsized.pos⟩,
      List.forall_mem_cons.mpr ⟨List.all_eq_true.mpr fun c => isHex_encodeToString, hsized.hex⟩⟩
    rw [List.map_cons, hsized.sizes, hfirst]
    rfl
  have hstring : string u = layout ((false, encodeToString (u.toList.take 4)) :: parts) := by
    rw [string, hgroups, layout, layout, List.flatMap_cons]
    rfl
  obtain ⟨hall, -, hencode⟩ := layout_spec hsized' []
  rw [List.append_nil, ← hstring] at hall hencode
  rw [List.flatMap_cons, hdigits, ← encodeToString_append, List.take_append_drop] at hencode
  obtain ⟨b, hb, hparse⟩ := parseGroups_front (by decide) hall []
  rw [hencode, map_lower_encodeToString] at hb
  rw [List.append_nil, parseGroups, ok_bind, List.append_nil, ← encodeToString_injective hb] at hparse
  rw [parseString, if_neg, hparse]
  rw [string, List.length_append, hlength, hfirst]
  decide

/-- **What UUID texts are accepted.** A text of 32 to 36 bytes is accepted only for the id it is a text of, and
without a panic, exactly if it ends as it has to; ids come back from their texts; and texts of one id differ only
in dashes and letter case. -/
theorem parseString_faithful :
    (∀ text, Faithful sha1 text ↔ (32 ≤ text.length → text.length ≤ 36 → Ends text)) ∧
      (∀ u, parseString sha1 (string u) = .ok u.toList) ∧
      ∀ u text text', Written u text → Written u text' →
        (text.filter (· ≠ 45)).map lower = (text'.filter (· ≠ 45)).map lower :=
  ⟨faithful_iff sha1, parseString_string sha1, fun _ _ _ h h' => h.undashed.trans h'.undashed.symm⟩

/-- A dash before the last group of a text of 32 bytes. -/
theorem parseString_not_faithful :
    ¬Faithful (fun _ => List.Vector.replicate 20 0) (List.replicate 20 48 ++ 45 :: List.replicate 11 48) := by
  refine fun h => h.1 ?_
  rfl

end Parse

end V2RootCore.Uuid
