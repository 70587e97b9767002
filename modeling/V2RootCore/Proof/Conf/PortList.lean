import V2RootCore.Conf.PortList
import V2RootCore.Proof.Conf.Int32Range

/-!
# What port lists mean

A list that is read has the ports its items name, except in four cases: a JSON number is not compared with 65535, a
zero is no range when it is a number, a range may descend, and the item `null` is a zero.
-/

namespace V2RootCore.Conf

open Go Net

section Lists

theorem mapM_eq_ok_iff {ε α β : Type} {f : α → Except ε β} {l : List α} {ys : List β} :
    l.mapM f = .ok ys ↔ l.map f = ys.map .ok := by
  induction l generalizing ys with
  | nil => cases ys <;> simp [pure, Except.pure]
  | cons x l ih =>
      rw [List.mapM_cons, bind_eq_ok, List.map_cons]
      constructor
      · rintro ⟨y, hx, hrest⟩
        obtain ⟨rest, hl, hys⟩ := bind_eq_ok.mp hrest
        rw [← Except.ok.inj hys, List.map_cons, hx, ih.mp hl]
      · intro h
        cases ys with
        | nil => cases h
        | cons y ys =>
            obtain ⟨hx, hl⟩ := List.cons.inj h
            exact ⟨y, hx, bind_eq_ok.mpr ⟨ys, ih.mpr hl, rfl⟩⟩

theorem infix_intercalate {c : UInt8} {piece : Bytes} {pieces : List Bytes} (h : piece ∈ pieces) :
    piece <:+: [c].intercalate pieces := by
  induction pieces with
  | nil => cases h
  | cons first rest ih =>
      cases rest with
      | nil =>
          rw [List.mem_singleton.mp h, List.intercalate_singleton]
      | cons second rest =>
          rw [List.intercalate_cons_cons]
          obtain rfl | hrest := List.mem_cons.mp h
          · exact ⟨[], _, by rw [List.nil_append, List.append_assoc]⟩
          · exact (ih hrest).trans (List.suffix_append _ _).isInfix

theorem trimStart_suffix (runes : List Bytes) (n : Nat) (s : Bytes) : trimStart runes n s <:+ s := by
  induction n generalizing s with
  | zero => exact List.suffix_rfl
  | succ n ih =>
      unfold trimStart
      cases runes.find? fun rune => hasPrefix s rune with
      | none => exact List.suffix_rfl
      | some rune => exact (ih _).trans (List.drop_suffix _ _)

theorem infix_trimSpace (s : Bytes) : trimSpace s <:+: s := by
  have hback := List.reverse_prefix.mpr (trimStart_suffix (spaces.map List.reverse)
    (trimStart spaces s.length s).length (trimStart spaces s.length s).reverse)
  rw [List.reverse_reverse] at hback
  exact hback.isInfix.trans (trimStart_suffix spaces s.length s).isInfix

/-- A byte of a port or of a range. -/
def IsPlain (c : UInt8) : Bool := 45 ≤ c && c ≤ 57

theorem trimStart_plain {runes : List Bytes} (hrunes : ∀ rune ∈ runes, rune.all IsPlain = false) {s : Bytes}
    (hs : s.all IsPlain = true) (n : Nat) : trimStart runes n s = s := by
  cases n with
  | zero => rfl
  | succ n =>
      have hnone : runes.find? (fun rune => hasPrefix s rune) = none := by
        apply List.find?_eq_none.mpr
        intro rune hrune hfront
        have hplain : rune.all IsPlain = true := List.all_eq_true.mpr fun c hc =>
          List.all_eq_true.mp hs c ((List.isPrefixOf_iff_prefix.mp hfront).subset hc)
        exact Bool.false_ne_true ((hrunes rune hrune).symm.trans hplain)
      rw [trimStart, hnone]

theorem trimSpace_plain {s : Bytes} (hs : s.all IsPlain = true) : trimSpace s = s := by
  have hspaces : ∀ rune ∈ spaces, rune.all IsPlain = false := by decide
  have hreversed : ∀ rune ∈ spaces.map List.reverse, rune.all IsPlain = false := by decide
  have hback : s.reverse.all IsPlain = true := by rwa [List.all_reverse]
  unfold trimSpace
  rw [trimStart_plain hspaces hs]
  dsimp only
  rw [trimStart_plain hreversed hback, List.reverse_reverse]

end Lists

namespace PortList

section Items

variable {outside : Outside} {s item : Bytes} {n l r : Nat}

/-- The ports an item names: those from `l` to `r`. -/
inductive Reads : Bytes → Nat → Nat → Prop
  | number {s : Bytes} {n : Nat} : IsDecimal s n → Reads s n n
  | range {a b : Bytes} {l r : Nat} : IsDecimal a l → IsDecimal b r → Reads (a ++ 45 :: b) l r

theorem Reads.cases (h : Reads s l r) :
    IsDecimal s l ∧ l = r ∨ ∃ a b, s = a ++ 45 :: b ∧ IsDecimal a l ∧ IsDecimal b r := by
  cases h with
  | number hn => exact .inl ⟨hn, rfl⟩
  | range ha hb => exact .inr ⟨_, _, rfl, ha, hb⟩

theorem Reads.unique {l' r' : Nat} (h : Reads s l r) (h' : Reads s l' r') : l = l' ∧ r = r' := by
  have hmixed {a b : Bytes} {n : Nat} : ¬IsDecimal (a ++ 45 :: b) n := fun hn =>
    hn.dash_notMem (List.mem_append_right _ List.mem_cons_self)
  cases h with
  | number hn =>
      obtain ⟨hn', rfl⟩ | ⟨a, b, rfl, -⟩ := h'.cases
      · exact ⟨hn.unique hn', hn.unique hn'⟩
      · exact absurd hn hmixed
  | range ha hb =>
      obtain ⟨hn, -⟩ | ⟨a, b, htext, ha', hb'⟩ := h'.cases
      · exact absurd hn hmixed
      · have hcut := congrArg (cut 45) htext
        rw [cut_append ha.dash_notMem, cut_append ha'.dash_notMem] at hcut
        obtain ⟨rfl, rfl⟩ := Prod.mk.inj hcut
        exact ⟨ha.unique ha', hb.unique hb'⟩

theorem not_reads_null : ¬Reads (ascii "null") l r := by
  intro h
  obtain ⟨hn, -⟩ | ⟨a, b, htext, -⟩ := h.cases
  · exact absurd hn.2.1 (by decide)
  · have hdash : 45 ∈ ascii "null" := htext ▸ List.mem_append_right a List.mem_cons_self
    exact absurd hdash (by decide)

theorem portFromString_eq_ok_iff : portFromString s = .ok n ↔ IsDecimal s n ∧ n ≤ 65535 := by
  unfold portFromString portFromInt
  cases hparse : parseUint s 32 with
  | none =>
      refine iff_of_false (fun h => by cases h) ?_
      rintro ⟨hs, hn⟩
      rw [parseUint_eq_some_iff.mpr ⟨hs, by omega⟩] at hparse
      cases hparse
  | some m =>
      obtain ⟨hm, -⟩ := parseUint_eq_some_iff.mp hparse
      dsimp only
      constructor
      · intro h
        split_ifs at h with hlarge
        · rw [← Except.ok.inj h]
          exact ⟨hm, not_lt.mp hlarge⟩
      · rintro ⟨hs, hn⟩
        obtain rfl := hm.unique hs
        rw [if_neg (not_lt.mpr hn)]

theorem parseIntPort_eq_ok (h : parseIntPort outside s = .ok n) :
    s = ascii "null" ∧ n = 0 ∨ IsDecimal s n ∧ n ≤ 65535 := by
  obtain ⟨m, hm, hport⟩ := bind_eq_ok.mp h
  unfold portFromInt at hport
  split_ifs at hport with hlarge
  obtain rfl := Except.ok.inj hport
  unfold unmarshalUint32 at hm
  split_ifs at hm with hnull
  · exact .inl ⟨hnull, (Except.ok.inj hm).symm⟩
  · cases hparse : parseUint s 32 with
    | none =>
        rw [hparse] at hm
        cases hm
    | some val =>
        rw [hparse] at hm
        dsimp only at hm
        split_ifs at hm with hcanonical
        obtain rfl := Except.ok.inj hm
        exact .inr ⟨(parseUint_eq_some_iff.mp hparse).1, not_lt.mp hlarge⟩

theorem parseIntPort_formatUint (hn : n ≤ 65535) : parseIntPort outside (formatUint n) = .ok n := by
  have hnull : formatUint n ≠ ascii "null" := fun h => not_reads_null (h ▸ Reads.number (isDecimal_formatUint n))
  have hparse : parseUint (formatUint n) 32 = some n := parseUint_formatUint (by omega)
  have hdecode : unmarshalUint32 outside (formatUint n) = .ok n := by
    rw [unmarshalUint32, if_neg hnull, hparse]
    dsimp only
    rw [if_pos rfl]
  refine bind_eq_ok.mpr ⟨n, hdecode, ?_⟩
  rw [portFromInt, if_neg (not_lt.mpr hn)]

theorem contains_dash : Go.contains s [45] = true ↔ 45 ∈ s := by
  rw [Go.contains, decide_eq_true_iff, List.singleton_infix_iff]

theorem portText_eq (henv : Go.contains s (ascii "env:") = false) : portText outside s = s := by
  have hfront : ¬hasPrefix s (ascii "env:") = true := by
    intro h
    have hpart : Go.contains s (ascii "env:") = true := decide_eq_true (List.isPrefixOf_iff_prefix.mp h).isInfix
    exact Bool.false_ne_true (henv.symm.trans hpart)
  rw [portText, if_neg hfront]

/-- The range an item becomes. -/
def Becomes (item : Bytes) (port : PortRange) : Prop :=
  item = ascii "null" ∧ port = ⟨0, 0⟩ ∨
    Reads item port.lower port.upper ∧ port.lower ≤ 65535 ∧ port.upper ≤ 65535

theorem parseItem_eq_ok {port : PortRange} (henv : Go.contains s (ascii "env:") = false)
    (h : parseItem outside s = .ok port) : Becomes s port := by
  unfold parseItem at h
  rw [henv, Bool.or_false] at h
  split_ifs at h with hdash
  · rw [contains_dash] at hdash
    cases hparse : parseStringPort outside s with
    | error err =>
        rw [hparse] at h
        cases h
    | ok pair =>
        rw [hparse] at h
        rw [← Except.ok.inj h]
        unfold parseStringPort at hparse
        rw [portText_eq henv] at hparse
        obtain ⟨a, b, rfl, ha⟩ := List.eq_append_cons_of_mem hdash
        rw [splitTwo_append ha] at hparse
        obtain ⟨fromPort, hfrom, hrest⟩ := bind_eq_ok.mp hparse
        obtain ⟨toPort, hto, hpair⟩ := bind_eq_ok.mp hrest
        rw [← Except.ok.inj hpair]
        obtain ⟨hlower, hlower'⟩ := portFromString_eq_ok_iff.mp hfrom
        obtain ⟨hupper, hupper'⟩ := portFromString_eq_ok_iff.mp hto
        exact .inr ⟨.range hlower hupper, hlower', hupper'⟩
  · cases hparse : parseIntPort outside s with
    | error err =>
        rw [hparse] at h
        cases h
    | ok port =>
        rw [hparse] at h
        rw [← Except.ok.inj h]
        obtain ⟨hnull, rfl⟩ | ⟨hdecimal, hport⟩ := parseIntPort_eq_ok hparse
        · exact .inl ⟨hnull, rfl⟩
        · exact .inr ⟨.number hdecimal, hport, hport⟩

theorem contains_env_eq_false (h : s.all IsPlain = true) : Go.contains s (ascii "env:") = false := by
  apply decide_eq_false
  intro hpart
  have hletter : (101 : UInt8) ∈ s := hpart.subset (by decide)
  exact absurd (List.all_eq_true.mp h 101 hletter) (by decide)

theorem formatUint_plain (n : Nat) : (formatUint n).all IsPlain = true := by
  apply List.all_eq_true.mpr
  intro c hc
  have hdigit := List.all_eq_true.mp (formatUint_all_isDigit n) c hc
  grind [isDigit, IsPlain]

theorem string_plain (port : PortRange) : port.string.all IsPlain = true := by
  unfold PortRange.string
  split_ifs
  · exact formatUint_plain _
  · rw [List.all_append, List.all_cons, formatUint_plain, formatUint_plain]
    rfl

theorem parseItem_string {port : PortRange} (hlower : port.lower ≤ 65535) (hupper : port.upper ≤ 65535) :
    parseItem outside port.string = .ok port := by
  have henv := contains_env_eq_false (string_plain port)
  unfold parseItem
  rw [henv, Bool.or_false]
  unfold PortRange.string at henv ⊢
  split_ifs at henv ⊢ with hsame hdash hdash
  · exact absurd (contains_dash.mp hdash) (isDecimal_formatUint _).dash_notMem
  · rw [parseIntPort_formatUint hlower]
    exact congrArg (Except.ok ∘ PortRange.mk port.lower) hsame
  · have hpair : parseStringPort outside (formatUint port.lower ++ 45 :: formatUint port.upper) =
        .ok (port.lower, port.upper) := by
      unfold parseStringPort
      rw [portText_eq henv, splitTwo_append (isDecimal_formatUint _).dash_notMem]
      refine bind_eq_ok.mpr ⟨_, portFromString_eq_ok_iff.mpr ⟨isDecimal_formatUint _, hlower⟩, ?_⟩
      exact bind_eq_ok.mpr ⟨_, portFromString_eq_ok_iff.mpr ⟨isDecimal_formatUint _, hupper⟩, rfl⟩
    rw [hpair]
  · exact absurd (contains_dash.mpr (List.mem_append_right _ List.mem_cons_self)) hdash

end Items

section Means

variable {outside : Outside} {ranges : List PortRange}

theorem items_string (ranges : List PortRange) : items (string ranges) = ranges.map PortRange.string := by
  by_cases hnil : ranges = []
  · subst hnil
    rfl
  · have hcomma : ∀ text ∈ ranges.map PortRange.string, 44 ∉ text := by
      intro text htext hmem
      obtain ⟨port, -, rfl⟩ := List.mem_map.mp htext
      exact absurd (List.all_eq_true.mp (string_plain port) 44 hmem) (by decide)
    have htrim : ∀ text ∈ ranges.map PortRange.string, trimSpace text = id text := by
      intro text htext
      obtain ⟨port, -, rfl⟩ := List.mem_map.mp htext
      exact trimSpace_plain (string_plain port)
    have hne : ∀ text ∈ ranges.map PortRange.string, decide (text ≠ []) = true := by
      intro text htext
      obtain ⟨port, -, rfl⟩ := List.mem_map.mp htext
      apply decide_eq_true
      unfold PortRange.string
      split_ifs
      · exact formatUint_ne_nil _
      · exact List.append_ne_nil_of_left_ne_nil (formatUint_ne_nil _) _
    rw [items, string, List.splitOn_intercalate 44 hcomma (by simpa using hnil), List.map_congr_left htrim,
      List.map_id, List.filter_eq_self.mpr hne]

/-- Every end is a port. -/
def IsPorts (ranges : List PortRange) : Prop := ∀ port ∈ ranges, port.lower ≤ 65535 ∧ port.upper ≤ 65535

theorem unmarshalJSON_string (h : IsPorts ranges) :
    unmarshalJSON outside (.text (string ranges)) = .ok ranges := by
  rw [unmarshalJSON, items_string, mapM_eq_ok_iff, List.map_map]
  exact List.map_congr_left fun port hport => parseItem_string (h port hport).1 (h port hport).2

theorem comma_notMem_of_isInteger {s : Bytes} {z : Int} (h : IsInteger s z) : 44 ∉ s := by
  have hdigits {s : Bytes} {n : Nat} (hn : IsDecimal s n) : 44 ∉ s := fun hc => (hn.ne_of_mem hc).2.1 rfl
  cases h with
  | plain hn => exact hdigits hn
  | plus hn => exact List.not_mem_cons_of_ne_of_not_mem (by decide) (hdigits hn)
  | minus hn => exact List.not_mem_cons_of_ne_of_not_mem (by decide) (hdigits hn)

theorem eq_of_isInteger {s : Bytes} {n : Nat} {z : Int} (hs : IsDecimal s n) (h : IsInteger s z) : z = n := by
  cases h with
  | plain hn => exact congrArg Nat.cast (hn.unique hs)
  | plus _ => exact absurd rfl (hs.ne_of_mem List.mem_cons_self).1
  | minus _ => exact absurd rfl (hs.ne_of_mem List.mem_cons_self).2.2

/-- Only a list of one port is written as a number. -/
theorem atoi_string_eq_ok {z : Int} (h : atoi (string ranges) = .ok z) : ∃ n : Nat, ranges = [⟨n, n⟩] ∧ z = n := by
  have hinteger := (atoi_eq_ok_iff.mp h).1
  cases ranges with
  | nil => exact absurd rfl hinteger.dash_notMem_tail.1
  | cons port rest =>
      cases rest with
      | nil =>
          have hstring : string [port] = port.string := List.intercalate_singleton
          rw [hstring] at h hinteger
          unfold PortRange.string at h hinteger
          split_ifs at h hinteger with hsame
          · refine ⟨port.lower, congrArg (fun upper => [PortRange.mk port.lower upper]) hsame.symm, ?_⟩
            exact eq_of_isInteger (isDecimal_formatUint _) hinteger
          · obtain ⟨-, hdash⟩ := hinteger.dash_notMem_tail
            rw [List.tail_append_of_ne_nil (formatUint_ne_nil _)] at hdash
            exact absurd (List.mem_append_right _ List.mem_cons_self) hdash
      | cons second rest =>
          have hstring : string (port :: second :: rest) = port.string ++ [44] ++ string (second :: rest) :=
            List.intercalate_cons_cons
          rw [hstring] at hinteger
          have hcomma : 44 ∈ port.string ++ [44] ++ string (second :: rest) := by simp
          exact absurd hcomma (comma_notMem_of_isInteger hinteger)

/-- A list is read back from what is written for it, unless it is the port zero. -/
theorem unmarshalJSON_marshalJSON_iff (h : IsPorts ranges) :
    unmarshalJSON outside (marshalJSON ranges) = .ok ranges ↔ ranges ≠ [⟨0, 0⟩] := by
  unfold marshalJSON
  cases hatoi : atoi (string ranges) with
  | ok z =>
      obtain ⟨n, rfl, rfl⟩ := atoi_string_eq_ok hatoi
      have hn : n ≤ 65535 := (h _ List.mem_cons_self).1
      have hmarshal : marshalInt n = .number n := by
        rw [marshalInt, if_neg (by omega), Int.toNat_natCast]
      dsimp only
      rw [hmarshal, unmarshalJSON, if_pos (by omega)]
      by_cases hzero : n = 0
      · subst hzero
        decide
      · simp [hzero]
  | error err =>
      refine iff_of_true (unmarshalJSON_string h) ?_
      rintro rfl
      cases hatoi

/-- The ports that stand in the JSON. -/
def Names : PortJson → Nat → Prop
  | .text s, p => ∃ item ∈ items s, ∃ l r, Reads item l r ∧ l ≤ p ∧ p ≤ r
  | .number n, p => p = n
  | .other _, _ => False

/-- The ranges are what the JSON says. -/
structure Means (outside : Outside) (v : PortJson) (ranges : List PortRange) : Prop where
  ports : ∀ port ∈ ranges, port.lower ≤ port.upper ∧ port.upper ≤ 65535
  named : ∀ p : UInt16, contains ranges p = true ↔ Names v p.toNat
  readBack : unmarshalJSON outside (marshalJSON ranges) = .ok ranges

/-- No part of the text comes from the environment. -/
def EnvFree : PortJson → Prop
  | .text s => Go.contains s (ascii "env:") = false
  | _ => True

/-- A number is a port other than zero. In a text no range descends, an item `null` stands beside one that names the
port zero, and the only item is not the port zero. -/
def Regular : PortJson → Prop
  | .text s => (∀ item ∈ items s, ∀ l r, Reads item l r → l ≤ r) ∧
      (ascii "null" ∈ items s → Names (.text s) 0) ∧ ¬∃ item, items s = [item] ∧ Reads item 0 0
  | .number n => 0 < n ∧ n ≤ 65535
  | .other _ => True

theorem contains_iff (h : IsPorts ranges) {p : UInt16} :
    contains ranges p = true ↔ ∃ port ∈ ranges, port.lower ≤ p.toNat ∧ p.toNat ≤ port.upper := by
  rw [contains, List.any_eq_true]
  refine exists_congr fun port => and_congr_right fun hport => ?_
  obtain ⟨hlower, hupper⟩ := h port hport
  rw [PortRange.contains, Bool.and_eq_true, decide_eq_true_iff, decide_eq_true_iff, Nat.mod_eq_of_lt (by omega),
    Nat.mod_eq_of_lt (by omega)]

theorem means_number_iff {n : Nat} (h : unmarshalJSON outside (.number n) = .ok ranges) :
    Means outside (.number n) ranges ↔ 0 < n ∧ n ≤ 65535 := by
  rw [unmarshalJSON] at h
  split_ifs at h with hsize hzero
  · obtain rfl := Except.ok.inj h
    constructor
    · intro hmeans
      have := (hmeans.ports ⟨n, n⟩ List.mem_cons_self).2
      dsimp only at this
      omega
    · rintro ⟨-, hn⟩
      have hports : IsPorts [⟨n, n⟩] := fun port hport => by
        rw [List.mem_singleton.mp hport]
        exact ⟨hn, hn⟩
      refine ⟨fun port hport => ?_, fun p => ?_, (unmarshalJSON_marshalJSON_iff hports).mpr (by simpa using hzero)⟩
      · rw [List.mem_singleton.mp hport]
        exact ⟨le_rfl, hn⟩
      · rw [contains_iff hports]
        simp only [List.mem_singleton, exists_eq_left, Names]
        omega
  · obtain rfl := Except.ok.inj h
    refine iff_of_false (fun hmeans => ?_) (by omega)
    have hnamed : Names (.number n) (0 : UInt16).toNat := (not_not.mp hzero).symm
    exact absurd ((hmeans.named 0).mpr hnamed) (by decide)
  · cases h

theorem envFree_item {s item : Bytes} (henv : EnvFree (.text s)) (hitem : item ∈ items s) :
    Go.contains item (ascii "env:") = false := by
  obtain ⟨piece, hpiece, rfl⟩ := List.mem_map.mp (List.mem_of_mem_filter hitem)
  have hpart : piece <:+: s := by
    have := infix_intercalate (c := 44) hpiece
    rwa [List.intercalate_splitOn] at this
  apply decide_eq_false
  intro hmem
  have hwhole : Go.contains s (ascii "env:") = true :=
    decide_eq_true ((hmem.trans (infix_trimSpace _)).trans hpart)
  exact Bool.false_ne_true (henv.symm.trans hwhole)

section Text

variable {s item : Bytes} (henv : EnvFree (.text s)) (h : unmarshalJSON outside (.text s) = .ok ranges)
include henv h

theorem exists_port_of_item (hitem : item ∈ items s) : ∃ port ∈ ranges, Becomes item port := by
  have hread : parseItem outside item ∈ ranges.map .ok := mapM_eq_ok_iff.mp h ▸ List.mem_map_of_mem hitem
  obtain ⟨port, hport, hok⟩ := List.mem_map.mp hread
  exact ⟨port, hport, parseItem_eq_ok (envFree_item henv hitem) hok.symm⟩

theorem exists_item_of_port {port : PortRange} (hport : port ∈ ranges) : ∃ item ∈ items s, Becomes item port := by
  have hread : .ok port ∈ (items s).map (parseItem outside) := mapM_eq_ok_iff.mp h ▸ List.mem_map_of_mem hport
  obtain ⟨item, hitem, hok⟩ := List.mem_map.mp hread
  exact ⟨item, hitem, parseItem_eq_ok (envFree_item henv hitem) hok⟩

theorem port_of_reads (hitem : item ∈ items s) {l r : Nat} (hreads : Reads item l r) : ⟨l, r⟩ ∈ ranges := by
  obtain ⟨port, hport, ⟨rfl, -⟩ | ⟨hreads', -⟩⟩ := exists_port_of_item henv h hitem
  · exact absurd hreads not_reads_null
  · obtain ⟨rfl, rfl⟩ := hreads.unique hreads'
    exact hport

theorem isPorts : IsPorts ranges := by
  intro port hport
  obtain ⟨item, -, ⟨-, rfl⟩ | ⟨-, hlower, hupper⟩⟩ := exists_item_of_port henv h hport
  · exact ⟨Nat.zero_le _, Nat.zero_le _⟩
  · exact ⟨hlower, hupper⟩

theorem regular_of_means (hmeans : Means outside (.text s) ranges) : Regular (.text s) := by
  refine ⟨fun item hitem l r hreads => (hmeans.ports _ (port_of_reads henv h hitem hreads)).1, fun hnull => ?_, ?_⟩
  · obtain ⟨port, hport, ⟨-, rfl⟩ | ⟨hreads, -⟩⟩ := exists_port_of_item henv h hnull
    · exact (hmeans.named 0).mp ((contains_iff (isPorts henv h)).mpr ⟨_, hport, le_rfl, le_rfl⟩)
    · exact absurd hreads not_reads_null
  · rintro ⟨item, hitems, hreads⟩
    refine (unmarshalJSON_marshalJSON_iff (isPorts henv h)).mp hmeans.readBack ?_
    have hport := port_of_reads henv h (hitems ▸ List.mem_cons_self) hreads
    have hlength : ranges.length = 1 := by
      have := congrArg List.length (mapM_eq_ok_iff.mp h)
      rw [List.length_map, List.length_map, hitems] at this
      exact this.symm
    obtain ⟨port, rfl⟩ := List.length_eq_one_iff.mp hlength
    rw [List.mem_singleton.mp hport]

theorem means_of_regular (hregular : Regular (.text s)) : Means outside (.text s) ranges := by
  obtain ⟨hascending, hzero, hsingle⟩ := hregular
  have hports := isPorts henv h
  refine ⟨fun port hport => ⟨?_, (hports port hport).2⟩, fun p => ?_,
    (unmarshalJSON_marshalJSON_iff hports).mpr ?_⟩
  · obtain ⟨item, hitem, ⟨-, rfl⟩ | ⟨hreads, -⟩⟩ := exists_item_of_port henv h hport
    · exact le_rfl
    · exact hascending item hitem _ _ hreads
  · rw [contains_iff hports]
    constructor
    · rintro ⟨port, hport, hlower, hupper⟩
      obtain ⟨item, hitem, ⟨rfl, rfl⟩ | ⟨hreads, -⟩⟩ := exists_item_of_port henv h hport
      · rw [Nat.le_zero.mp hupper]
        exact hzero hitem
      · exact ⟨item, hitem, _, _, hreads, hlower, hupper⟩
    · rintro ⟨item, hitem, l, r, hreads, hp⟩
      exact ⟨_, port_of_reads henv h hitem hreads, hp⟩
  · rintro rfl
    have hlength : (items s).length = 1 := by
      have := congrArg List.length (mapM_eq_ok_iff.mp h)
      rwa [List.length_map, List.length_map] at this
    obtain ⟨only, hitems⟩ := List.length_eq_one_iff.mp hlength
    obtain ⟨item, hitem, ⟨rfl, -⟩ | ⟨hreads, -⟩⟩ := exists_item_of_port henv h List.mem_cons_self
    · obtain ⟨item, hitem', l, r, hreads, -⟩ := hzero hitem
      rw [hitems, List.mem_singleton] at hitem hitem'
      rw [hitem', ← hitem] at hreads
      exact not_reads_null hreads
    · rw [hitems, List.mem_singleton] at hitem
      exact hsingle ⟨only, hitems, hitem ▸ hreads⟩

end Text

/-- **A port list that is read means what it says exactly if it is regular.** -/
theorem unmarshalJSON_means_iff {v : PortJson} (henv : EnvFree v) (h : unmarshalJSON outside v = .ok ranges) :
    Means outside v ranges ↔ Regular v := by
  cases v with
  | text s => exact ⟨regular_of_means henv h, means_of_regular henv h⟩
  | number n => exact means_number_iff h
  | other data => cases h

/-- No variable of the environment is set. -/
def outsideEmpty : Outside := ⟨fun _ => [], .new⟩

theorem unmarshalJSON_means_iff_web : Means outsideEmpty (.text (ascii "80, 443-445")) [⟨80, 80⟩, ⟨443, 445⟩] ↔
    Regular (.text (ascii "80, 443-445")) :=
  unmarshalJSON_means_iff rfl (by decide)

/-- The number 70000 is a range above all ports, 0 is no range, `"5-3"` descends, and `"0"` is not read back. -/
theorem unmarshalJSON_not_means :
    (unmarshalJSON outsideEmpty (.number 70000) = .ok [⟨70000, 70000⟩] ∧
      ¬Means outsideEmpty (.number 70000) [⟨70000, 70000⟩]) ∧
    (unmarshalJSON outsideEmpty (.number 0) = .ok [] ∧ ¬Means outsideEmpty (.number 0) []) ∧
    (unmarshalJSON outsideEmpty (.text (ascii "5-3")) = .ok [⟨5, 3⟩] ∧
      ¬Means outsideEmpty (.text (ascii "5-3")) [⟨5, 3⟩]) ∧
    unmarshalJSON outsideEmpty (.text (ascii "0")) = .ok [⟨0, 0⟩] ∧
      ¬Means outsideEmpty (.text (ascii "0")) [⟨0, 0⟩] := by
  refine ⟨⟨by decide, fun hmeans => ?_⟩, ⟨by decide, fun hmeans => ?_⟩, ⟨by decide, fun hmeans => ?_⟩, by decide,
    fun hmeans => ?_⟩
  · exact absurd (hmeans.ports _ List.mem_cons_self).2 (by decide)
  · exact absurd ((hmeans.named 0).mpr rfl) (by decide)
  · exact absurd (hmeans.ports _ List.mem_cons_self).1 (by decide)
  · exact absurd hmeans.readBack (by decide)

end Means

end PortList

end V2RootCore.Conf
