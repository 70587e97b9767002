import V2RootCore.Go.Base64
import V2RootCore.Proof.Go.Strings

/-!
# Decoding base64

Decoding undoes encoding. A text with a character from outside the alphabet is never decoded, so the
two alphabets, and padded and unpadded texts, can be told apart whenever they differ.
-/

namespace V2RootCore.Go.Base64

/-! ### Digits -/

theorem forall_small {m n : Nat} {P : UInt8 → UInt8 → Prop}
    (h : ∀ i : Fin m, ∀ j : Fin n, P (UInt8.ofNat i) (UInt8.ofNat j)) {p q : UInt8}
    (hp : p.toNat < m) (hq : q.toNat < n) : P p q := by
  simpa using h ⟨p.toNat, hp⟩ ⟨q.toNat, hq⟩

theorem digit_char (alphabet : Alphabet) {digit : UInt8} (hdigit : digit < 64) :
    alphabet.digit (alphabet.char digit) = some digit := by
  have hall : ∀ digit : UInt8, digit < 64 → ∀ alphabet ∈ [Alphabet.std, Alphabet.url],
      alphabet.digit (alphabet.char digit) = some digit := forall_byte (by decide +kernel)
  exact hall digit hdigit alphabet (by cases alphabet <;> simp)

theorem digit_padChar (alphabet : Alphabet) : alphabet.digit padChar = none := by
  cases alphabet <;> decide

theorem parts_facts (c : UInt8) :
    (c >>> 2 < 64 ∧ (c &&& 3).toNat < 4 ∧ (c >>> 4).toNat < 16 ∧ (c &&& 15).toNat < 16 ∧
      (c >>> 6).toNat < 4 ∧ c &&& 63 < 64) ∧
    ((c >>> 2) <<< 2 ||| (c &&& 3) = c ∧ (c >>> 4) <<< 4 ||| (c &&& 15) = c ∧
      (c >>> 6) <<< 6 ||| (c &&& 63) = c) ∧
    ((c &&& 3) <<< 4) >>> 4 = c &&& 3 ∧ (c &&& 3) <<< 4 < 64 ∧ ((c &&& 15) <<< 2) >>> 2 = c &&& 15 ∧
      (c &&& 15) <<< 2 < 64 := by
  revert c
  exact forall_byte (by decide +kernel)

theorem parts_lt (c : UInt8) : c >>> 2 < 64 ∧ (c &&& 3).toNat < 4 ∧ (c >>> 4).toNat < 16 ∧
    (c &&& 15).toNat < 16 ∧ (c >>> 6).toNat < 4 ∧ c &&& 63 < 64 := (parts_facts c).1

theorem parts_join (c : UInt8) : (c >>> 2) <<< 2 ||| (c &&& 3) = c ∧
    (c >>> 4) <<< 4 ||| (c &&& 15) = c ∧ (c >>> 6) <<< 6 ||| (c &&& 63) = c := (parts_facts c).2.1

theorem last_digit (c : UInt8) : ((c &&& 3) <<< 4) >>> 4 = c &&& 3 ∧ (c &&& 3) <<< 4 < 64 ∧
    ((c &&& 15) <<< 2) >>> 2 = c &&& 15 ∧ (c &&& 15) <<< 2 < 64 := (parts_facts c).2.2

theorem second_digit {p q : UInt8} (hp : p.toNat < 4) (hq : q.toNat < 16) :
    (p <<< 4 ||| q) >>> 4 = p ∧ (p <<< 4 ||| q) <<< 4 = q <<< 4 ∧ (p <<< 4 ||| q) < 64 :=
  forall_small (P := fun p q => (p <<< 4 ||| q) >>> 4 = p ∧ (p <<< 4 ||| q) <<< 4 = q <<< 4 ∧
    (p <<< 4 ||| q) < 64) (by decide +kernel) hp hq

theorem third_digit {p q : UInt8} (hp : p.toNat < 16) (hq : q.toNat < 4) :
    (p <<< 2 ||| q) >>> 2 = p ∧ (p <<< 2 ||| q) <<< 6 = q <<< 6 ∧ (p <<< 2 ||| q) < 64 :=
  forall_small (P := fun p q => (p <<< 2 ||| q) >>> 2 = p ∧ (p <<< 2 ||| q) <<< 6 = q <<< 6 ∧
    (p <<< 2 ||| q) < 64) (by decide +kernel) hp hq

namespace Encoding

variable {enc : Encoding}

theorem quantum_split (a b c : UInt8) :
    quantum (a >>> 2) ((a &&& 3) <<< 4 ||| b >>> 4) ((b &&& 15) <<< 2 ||| c >>> 6) (c &&& 63)
      = [a, b, c] := by
  obtain ⟨hx, hx', -⟩ := second_digit (parts_lt a).2.1 (parts_lt b).2.2.1
  obtain ⟨hy, hy', -⟩ := third_digit (parts_lt b).2.2.2.1 (parts_lt c).2.2.2.2.1
  rw [quantum, hx, hx', hy, hy', (parts_join a).1, (parts_join b).2.1, (parts_join c).2.2]

/-- **Decoding undoes encoding**, with either alphabet, padded or not. -/
theorem decodeQuanta_encode (s : Bytes) : enc.decodeQuanta (enc.encode s) = some s := by
  fun_induction encode enc s with
  | case1 => rfl
  | case2 a =>
      have hw := digit_char enc.alphabet (parts_lt a).1
      have hx := digit_char enc.alphabet (last_digit a).2.1
      have hbyte : (quantum (a >>> 2) ((a &&& 3) <<< 4) 0 0).take 1 = [a] := by
        rw [quantum, (last_digit a).1, (parts_join a).1]
        rfl
      cases hpadded : enc.padded with
      | true => simp [pad, hpadded, decodeQuanta, hw, hx, hbyte, digit_padChar]
      | false => simp [pad, hpadded, decodeQuanta, hw, hx, hbyte]
  | case3 a b =>
      have hw := digit_char enc.alphabet (parts_lt a).1
      obtain ⟨hsecond, hsecond', hlt⟩ := second_digit (parts_lt a).2.1 (parts_lt b).2.2.1
      have hx := digit_char enc.alphabet hlt
      have hy := digit_char enc.alphabet (last_digit b).2.2.2
      have hbytes : (quantum (a >>> 2) ((a &&& 3) <<< 4 ||| b >>> 4) ((b &&& 15) <<< 2) 0).take 2
          = [a, b] := by
        rw [quantum, hsecond, hsecond', (last_digit b).2.2.1, (parts_join a).1, (parts_join b).2.1]
        rfl
      cases hpadded : enc.padded with
      | true => simp [pad, hpadded, decodeQuanta, hw, hx, hy, hbytes, digit_padChar]
      | false => simp [pad, hpadded, decodeQuanta, hw, hx, hy, hbytes]
  | case4 a b c rest ih =>
      have hw := digit_char enc.alphabet (parts_lt a).1
      have hx := digit_char enc.alphabet
        (second_digit (parts_lt a).2.1 (parts_lt b).2.2.1).2.2
      have hy := digit_char enc.alphabet
        (third_digit (parts_lt b).2.2.2.1 (parts_lt c).2.2.2.2.1).2.2
      have hz := digit_char enc.alphabet (parts_lt c).2.2.2.2.2
      simp [decodeQuanta, hw, hx, hy, hz, ih, quantum_split]

/-! ### Characters of a text -/

def isText (enc : Encoding) (c : UInt8) : Bool :=
  (enc.alphabet.digit c).isSome || (enc.padded && c = padChar)

theorem isText_char {digit : UInt8} (h : digit < 64) : enc.isText (enc.alphabet.char digit) = true := by
  rw [isText, digit_char enc.alphabet h]
  rfl

theorem isText_of_mem_pad {n : Nat} {c : UInt8} (hc : c ∈ enc.pad n) : enc.isText c = true := by
  unfold pad at hc
  split at hc
  · rename_i hpadded
    rw [isText, (List.mem_replicate.mp hc).2, hpadded]
    simp
  · cases hc

theorem isText_of_mem_encode {s : Bytes} {c : UInt8} (hc : c ∈ enc.encode s) : enc.isText c = true := by
  fun_induction encode enc s with
  | case1 => cases hc
  | case2 a =>
      simp only [List.cons_append, List.nil_append, List.mem_cons] at hc
      rcases hc with rfl | rfl | hc
      · exact isText_char (parts_lt a).1
      · exact isText_char (last_digit a).2.1
      · exact isText_of_mem_pad hc
  | case3 a b =>
      simp only [List.cons_append, List.nil_append, List.mem_cons] at hc
      rcases hc with rfl | rfl | rfl | hc
      · exact isText_char (parts_lt a).1
      · exact isText_char (second_digit (parts_lt a).2.1 (parts_lt b).2.2.1).2.2
      · exact isText_char (last_digit b).2.2.2
      · exact isText_of_mem_pad hc
  | case4 a b c rest ih =>
      simp only [List.cons_append, List.nil_append, List.mem_cons] at hc
      rcases hc with rfl | rfl | rfl | rfl | hc
      · exact isText_char (parts_lt a).1
      · exact isText_char (second_digit (parts_lt a).2.1 (parts_lt b).2.2.1).2.2
      · exact isText_char (third_digit (parts_lt b).2.2.2.1 (parts_lt c).2.2.2.2.1).2.2
      · exact isText_char (parts_lt c).2.2.2.2.2
      · exact ih hc

theorem isText_of_digit {c digit : UInt8} (h : enc.alphabet.digit c = some digit) :
    enc.isText c = true := by
  rw [isText, h]
  rfl

theorem isText_of_decodeQuanta {s t : Bytes} (h : enc.decodeQuanta s = some t) :
    ∀ c ∈ s, enc.isText c = true := by
  fun_induction decodeQuanta enc s generalizing t with
  | case1 => simp
  | case2 => cases h
  | case3 => cases h
  | case4 a b hpadded =>
      obtain ⟨w, hw, h⟩ := Option.bind_eq_some_iff.mp h
      obtain ⟨x, hx, -⟩ := Option.bind_eq_some_iff.mp h
      simp [isText_of_digit hw, isText_of_digit hx]
  | case5 => cases h
  | case6 a b c hpadded =>
      obtain ⟨w, hw, h⟩ := Option.bind_eq_some_iff.mp h
      obtain ⟨x, hx, h⟩ := Option.bind_eq_some_iff.mp h
      obtain ⟨y, hy, -⟩ := Option.bind_eq_some_iff.mp h
      simp [isText_of_digit hw, isText_of_digit hx, isText_of_digit hy]
  | case7 a b c d rest ih =>
      obtain ⟨w, hw, h⟩ := Option.bind_eq_some_iff.mp h
      obtain ⟨x, hx, h⟩ := Option.bind_eq_some_iff.mp h
      have hpad : enc.padded = true → enc.isText padChar = true := by
        intro hpadded
        simp [isText, hpadded]
      split at h
      · split at h
        · rename_i hend
          obtain ⟨hpadded, rfl, rfl, rfl⟩ := hend
          simp [isText_of_digit hw, isText_of_digit hx, hpad hpadded]
        · cases h
      · rename_i y hy
        split at h
        · split at h
          · rename_i hend
            obtain ⟨hpadded, rfl, rfl⟩ := hend
            simp [isText_of_digit hw, isText_of_digit hx, isText_of_digit hy, hpad hpadded]
          · cases h
        · rename_i z hz
          obtain ⟨decoded, hdecoded, -⟩ := Option.bind_eq_some_iff.mp h
          simp only [List.mem_cons]
          rintro c (rfl | rfl | rfl | rfl | hc)
          · exact isText_of_digit hw
          · exact isText_of_digit hx
          · exact isText_of_digit hy
          · exact isText_of_digit hz
          · exact ih hdecoded c hc

theorem isText_imp {c : UInt8} (hc : enc.isText c = true) : c ≠ 10 ∧ c ≠ 13 := by
  have hdigits : ∀ alphabet : Alphabet, alphabet.digit 10 = none ∧ alphabet.digit 13 = none := by
    intro alphabet
    cases alphabet <;> decide
  constructor
  · rintro rfl
    simp [isText, (hdigits enc.alphabet).1, padChar] at hc
  · rintro rfl
    simp [isText, (hdigits enc.alphabet).2, padChar] at hc

theorem decode_of_isText {s : Bytes} (h : ∀ c ∈ s, enc.isText c = true) :
    enc.decode s = enc.decodeQuanta s := by
  have hself : s.filter (fun c => c ≠ 10 ∧ c ≠ 13) = s := by
    rw [List.filter_eq_self]
    exact fun c hc => decide_eq_true (isText_imp (h c hc))
  rw [decode, hself]

theorem decode_encode (s : Bytes) : enc.decode (enc.encode s) = some s := by
  rw [decode_of_isText fun c hc => isText_of_mem_encode hc, decodeQuanta_encode]

theorem decode_eq_none {s : Bytes} {c : UInt8} (hc : c ∈ s) (hbreak : c ≠ 10 ∧ c ≠ 13)
    (htext : enc.isText c = false) : enc.decode s = none := by
  cases h : enc.decode s with
  | none => rfl
  | some t =>
      have hmem : c ∈ s.filter (fun c => c ≠ 10 ∧ c ≠ 13) :=
        List.mem_filter.mpr ⟨hc, decide_eq_true hbreak⟩
      rw [isText_of_decodeQuanta h c hmem] at htext
      cases htext

end Encoding

/-! ### Two alphabets -/

theorem char_url_eq_std {digit : UInt8} (hminus : Alphabet.url.char digit ≠ 45)
    (hunderscore : Alphabet.url.char digit ≠ 95) : Alphabet.url.char digit = Alphabet.std.char digit := by
  grind [Alphabet.char]

theorem urlEncoding_eq_stdEncoding {s : Bytes} (h : 45 ∉ urlEncoding.encode s)
    (h' : 95 ∉ urlEncoding.encode s) : urlEncoding.encode s = stdEncoding.encode s := by
  fun_induction Encoding.encode urlEncoding s with
  | case1 => rfl
  | case2 a =>
      simp only [List.cons_append, List.nil_append, List.mem_cons, not_or] at h h'
      have hw := char_url_eq_std (Ne.symm h.1) (Ne.symm h'.1)
      have hx := char_url_eq_std (Ne.symm h.2.1) (Ne.symm h'.2.1)
      simp only [Encoding.encode, urlEncoding, hw, hx, stdEncoding]
      rfl
  | case3 a b =>
      simp only [List.cons_append, List.nil_append, List.mem_cons, not_or] at h h'
      have hw := char_url_eq_std (Ne.symm h.1) (Ne.symm h'.1)
      have hx := char_url_eq_std (Ne.symm h.2.1) (Ne.symm h'.2.1)
      have hy := char_url_eq_std (Ne.symm h.2.2.1) (Ne.symm h'.2.2.1)
      simp only [Encoding.encode, urlEncoding, hw, hx, hy, stdEncoding]
      rfl
  | case4 a b c rest ih =>
      simp only [List.cons_append, List.nil_append, List.mem_cons, not_or] at h h'
      have hw := char_url_eq_std (Ne.symm h.1) (Ne.symm h'.1)
      have hx := char_url_eq_std (Ne.symm h.2.1) (Ne.symm h'.2.1)
      have hy := char_url_eq_std (Ne.symm h.2.2.1) (Ne.symm h'.2.2.1)
      have hz := char_url_eq_std (Ne.symm h.2.2.2.1) (Ne.symm h'.2.2.2.1)
      rw [ih h.2.2.2.2 h'.2.2.2.2]
      simp only [Encoding.encode, urlEncoding, hw, hx, hy, hz, stdEncoding]

theorem urlEncoding_eq_rawURLEncoding {s : Bytes} (h : s.length % 3 = 0) :
    urlEncoding.encode s = rawURLEncoding.encode s := by
  fun_induction Encoding.encode urlEncoding s with
  | case1 => rfl
  | case2 a => simp at h
  | case3 a b => simp at h
  | case4 a b c rest ih =>
      rw [ih (by simp only [List.length_cons] at h; omega)]
      rfl

theorem padChar_mem_urlEncoding {s : Bytes} (h : s.length % 3 ≠ 0) :
    padChar ∈ urlEncoding.encode s := by
  fun_induction Encoding.encode urlEncoding s with
  | case1 => exact absurd rfl h
  | case2 a => exact List.mem_append_right _ (by decide)
  | case3 a b => exact List.mem_append_right _ (by decide)
  | case4 a b c rest ih =>
      exact List.mem_append_right _ (ih (by simp only [List.length_cons] at h; omega))

end V2RootCore.Go.Base64
