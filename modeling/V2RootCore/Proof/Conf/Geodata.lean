import V2RootCore.Conf.Geodata
import V2RootCore.Proof.Go.Slices

/-!
# When a geodata lookup stays in range

The walk looks at the second byte behind a header and at the bytes of a code before it knows that they are there,
and a length is cut to an `int`. Where it comes to such an element it panics; in a well-formed list there is none.
-/

namespace V2RootCore.Conf

open Go

section Varint

theorem decodeLoop_spec (turns : Nat) (buf : Bytes) (shift x n : Nat) (hx : x < 2 ^ 64) :
    decodeLoop turns buf shift x n = (0, 0) ∨
      (decodeLoop turns buf shift x n).1 < 2 ^ 64 ∧ n < (decodeLoop turns buf shift x n).2 ∧
        (decodeLoop turns buf shift x n).2 ≤ n + buf.length := by
  fun_induction decodeLoop turns buf shift x n with
  | case1 => exact .inl rfl
  | case2 => exact .inl rfl
  | case3 turns b buf shift x n x' hlast =>
      refine .inr ⟨Nat.or_lt_two_pow hx (Nat.mod_lt _ (by decide)), by dsimp only; omega, ?_⟩
      rw [List.length_cons]
      dsimp only
      omega
  | case4 turns b buf shift x n x' hmore ih =>
      have hx' : x' < 2 ^ 64 := Nat.or_lt_two_pow hx (Nat.mod_lt _ (by decide))
      rw [List.length_cons]
      obtain hzero | ⟨hlt, hlow, hhigh⟩ := ih hx'
      · exact .inl hzero
      · exact .inr ⟨hlt, by omega, by omega⟩

/-- A number in base 128, its least digits first. -/
inductive IsVarint : Bytes → Nat → Prop
  | last {b : UInt8} : b.toNat < 128 → IsVarint [b] b.toNat
  | more {b : UInt8} {bytes : Bytes} {value : Nat} :
      128 ≤ b.toNat → IsVarint bytes value → IsVarint (b :: bytes) (b.toNat - 128 + 128 * value)

theorem or_digit {x digit shift : Nat} (hx : x < 2 ^ shift) (hvalue : x + digit * 2 ^ shift < 2 ^ 64) :
    x ||| digit * 2 ^ shift % 2 ^ 64 = x + digit * 2 ^ shift := by
  rw [Nat.mod_eq_of_lt (by omega), Nat.or_comm, Nat.mul_comm, ← Nat.two_pow_add_eq_or_of_lt hx, Nat.add_comm]

theorem decodeLoop_append {bytes : Bytes} {value : Nat} (h : IsVarint bytes value) (tail : Bytes)
    {turns shift x n : Nat} (hturns : bytes.length ≤ turns) (hx : x < 2 ^ shift)
    (hvalue : x + value * 2 ^ shift < 2 ^ 64) :
    decodeLoop turns (bytes ++ tail) shift x n = (x + value * 2 ^ shift, n + bytes.length) := by
  induction h generalizing turns shift x n with
  | @last b hb =>
      obtain ⟨turns, rfl⟩ := Nat.exists_eq_add_one_of_ne_zero (Nat.ne_zero_of_lt hturns)
      rw [List.cons_append, decodeLoop, Nat.mod_eq_of_lt hb, or_digit hx hvalue, if_pos hb]
      rfl
  | @more b bytes value hb _ ih =>
      obtain ⟨turns, rfl⟩ := Nat.exists_eq_add_one_of_ne_zero (Nat.ne_zero_of_lt hturns)
      have hlt := b.toNat_lt
      have hdigit : b.toNat % 128 = b.toNat - 128 := by omega
      have hsum : x + (b.toNat - 128) * 2 ^ shift + value * 2 ^ (shift + 7) =
          x + (b.toNat - 128 + 128 * value) * 2 ^ shift := by ring
      have hnext : x + (b.toNat - 128) * 2 ^ shift < 2 ^ (shift + 7) := by
        have hbound : (b.toNat - 128) * 2 ^ shift ≤ 127 * 2 ^ shift := Nat.mul_le_mul_right _ (by omega)
        rw [Nat.pow_add]
        omega
      rw [List.length_cons] at hturns
      rw [List.cons_append, decodeLoop, hdigit, or_digit hx (by omega), if_neg (by omega),
        ih (by omega) hnext (by omega), hsum, List.length_cons, Nat.add_assoc, Nat.add_comm 1]

end Varint

section Code

variable {data code : Bytes}

theorem sameCode_eq (i : Nat) (hcode : code ≠ []) : sameCode data i code =
    if code <+: data.drop (2 + i) then .ok true
    else if data.drop (2 + i) <+: code then .error .panicked else .ok false := by
  induction code generalizing i with
  | nil => exact absurd rfl hcode
  | cons c code ih =>
      rw [sameCode, byteAt]
      by_cases hlt : 2 + i < data.length
      · have hdrop := List.drop_eq_getElem_cons hlt
        have hget : data.getD (2 + i : Int).toNat 0 = data[2 + i] := by
          rw [show (2 + i : Int).toNat = 2 + i by omega, List.getD_eq_getElem?_getD, List.getElem?_eq_getElem hlt]
          rfl
        rw [if_pos (by omega), ok_bind, hget, hdrop]
        simp only [List.cons_prefix_cons, eq_comm (a := c)]
        by_cases hsame : data[2 + i] = c
        · simp only [hsame, if_true, true_and]
          by_cases hlast : code = []
          · rw [if_pos hlast, hlast, if_pos List.nil_prefix]
          · rw [if_neg hlast, ih (i + 1) hlast, Nat.add_assoc]
        · simp only [hsame, if_false, false_and]
      · have hnot : ¬(c :: code) <+: ([] : Bytes) := fun h => List.cons_ne_nil _ _ (List.prefix_nil.mp h)
        rw [if_neg (by omega), List.drop_of_length_le (not_lt.mp hlt), if_neg hnot, if_pos List.nil_prefix]
        rfl

/-- The rest of the data behind a header is too short for what is looked at, or its length is no `int`. -/
def OutOfRange (code : Bytes) (x : Nat) (body : Bytes) : Prop :=
  body.length < 2 ∨ 2 ^ 63 ≤ x ∨
    body[1]?.map UInt8.toNat = some code.length ∧ body.drop 2 <+: code ∧ body.drop 2 ≠ code

/-- A header with the length `x` is read, and the rest of the data is at least that long. -/
def Opens (data : Bytes) (x : Nat) (rest : Bytes) : Prop :=
  2 ≤ data.length ∧ ∃ y, decodeVarint (data.drop 1) = (x, y) ∧ (x, y) ≠ (0, 0) ∧ rest = data.drop (1 + y) ∧
    int64 x ≤ rest.length

def Overruns (code data : Bytes) : Prop := ∃ x rest, Opens data x rest ∧ OutOfRange code x rest

/-- The rest of the data behind a header starts with an element for the code. -/
def Matches (code rest : Bytes) : Prop := rest[1]?.map UInt8.toNat = some code.length ∧ code <+: rest.drop 2

/-- An element that is in range, is for another code and is not the last one is passed over. -/
def Passes (code data next : Bytes) : Prop :=
  ∃ x rest, Opens data x rest ∧ ¬OutOfRange code x rest ∧ ¬Matches code rest ∧ x < rest.length ∧ next = rest.drop x

theorem int64_nonneg_iff {x : Nat} (hx : x < 2 ^ 64) : 0 ≤ int64 x ↔ x < 2 ^ 63 := by
  rw [int64, Int.bmod_def]
  omega

theorem hasCode_eq {body : Bytes} (hcode : code ≠ []) (length : UInt8) : hasCode body code length =
    if length.toNat = code.length ∧ code <+: body.drop 2 then .ok true
    else if length.toNat = code.length ∧ body.drop 2 <+: code then .error .panicked else .ok false := by
  rw [hasCode, sameCode_eq 0 hcode, Nat.add_zero]
  by_cases hlength : length.toNat = code.length <;> simp only [hlength, true_and, false_and, if_true, if_false]

/-- What is done with the rest behind a header. -/
theorem elementBody_eq {x : Nat} {body : Bytes} (hcode : code ≠ []) (hx : x < 2 ^ 64)
    (hfits : int64 x ≤ body.length) :
    (OutOfRange code x body → ∃ err, elementBody code body.length (int64 x) body = .error err) ∧
      (¬OutOfRange code x body → elementBody code body.length (int64 x) body = .ok (
        if body[1]?.map UInt8.toNat = some code.length ∧ code <+: body.drop 2 then .inl (some (body.take x))
        else if body.length = x then .inl none else .inr (body.drop x))) := by
  have hsign := int64_nonneg_iff hx
  by_cases hshort : body.length < 2
  · refine ⟨fun _ => ⟨.panicked, ?_⟩, fun hin => absurd (.inl hshort) hin⟩
    rw [elementBody, byteAt, if_neg (by omega)]
    rfl
  have hlt : 1 < body.length := by omega
  have hget : body.getD (1 : Int).toNat 0 = body[1] := by
    rw [Int.toNat_one, List.getD_eq_getElem?_getD, List.getElem?_eq_getElem hlt]
    rfl
  have hbody : elementBody code body.length (int64 x) body =
      hasCode body code body[1] >>= elementEnd body.length (int64 x) body := by
    rw [elementBody, byteAt, if_pos (by omega), ok_bind, hget]
  have hsecond : body[1]?.map UInt8.toNat = some code.length ↔ body[1].toNat = code.length := by
    rw [List.getElem?_eq_getElem hlt, Option.map_some, Option.some_inj]
  rw [OutOfRange, hbody, hasCode_eq hcode]
  simp only [hsecond, hshort, false_or]
  by_cases hmatch : body[1].toNat = code.length ∧ code <+: body.drop 2
  · have heq : body.drop 2 <+: code → body.drop 2 = code := fun h => h.eq_of_length_le hmatch.2.length_le
    rw [if_pos hmatch, if_pos hmatch, ok_bind, elementEnd, if_pos rfl, slice]
    refine ⟨fun hout => ?_, fun hin => ?_⟩
    · rw [if_neg]
      · exact ⟨_, rfl⟩
      · obtain hbig | ⟨-, hpre, hne⟩ := hout
        · omega
        · exact absurd (heq hpre) hne
    · rw [int64_eq (by omega) (by omega)] at *
      rw [if_pos (by omega), Int.toNat_natCast]
      rfl
  rw [if_neg hmatch, if_neg hmatch]
  by_cases hover : body[1].toNat = code.length ∧ body.drop 2 <+: code
  · have hne : body.drop 2 ≠ code := fun heq => hmatch ⟨hover.1, heq ▸ List.prefix_rfl⟩
    rw [if_pos hover]
    exact ⟨fun _ => ⟨_, rfl⟩, fun hin => absurd (.inr ⟨hover.1, hover.2, hne⟩) hin⟩
  rw [if_neg hover, ok_bind, elementEnd, if_neg Bool.false_ne_true, sliceFrom, slice]
  refine ⟨fun hout => ?_, fun hin => ?_⟩
  · have hbig : 2 ^ 63 ≤ x := hout.resolve_right fun h => hover ⟨h.1, h.2.1⟩
    rw [if_neg (by omega), if_neg (by omega)]
    exact ⟨_, rfl⟩
  · have hsmall : x < 2 ^ 63 := not_le.mp fun h => hin (.inl h)
    rw [int64_eq (by omega) (by omega)] at *
    by_cases hend : body.length = x
    · rw [if_pos (congrArg Nat.cast hend), if_pos hend]
    · rw [if_neg (by omega), if_neg hend, if_pos (by omega), Int.toNat_natCast, Int.toNat_natCast, List.take_length]
      rfl

theorem element_cases (code data : Bytes) :
    (element code data = .ok (.inl none) ∧ ∀ x rest, ¬Opens data x rest) ∨
      ∃ x rest, Opens data x rest ∧ x < 2 ^ 64 ∧ rest.length < data.length ∧
        (∀ x' rest', Opens data x' rest' → x' = x ∧ rest' = rest) ∧
        element code data = elementBody code rest.length (int64 x) rest := by
  unfold element
  by_cases hshort : data.length < 2
  · exact .inl ⟨if_pos hshort, fun x rest hopens => absurd hopens.1 (not_le.mpr hshort)⟩
  have hspec := decodeLoop_spec 10 (data.drop 1) 0 0 0 (by decide)
  rw [if_neg hshort]
  rw [← decodeVarint] at hspec
  rcases hhead : decodeVarint (data.drop 1) with ⟨x, y⟩
  rw [hhead, List.length_drop] at hspec
  have hunique : ∀ x' rest', Opens data x' rest' → x' = x ∧ rest' = data.drop (1 + y) ∧ (x, y) ≠ (0, 0) ∧
      int64 x ≤ (data.drop (1 + y)).length := by
    rintro x' rest' ⟨-, y', heq, hne, rfl, hfits⟩
    obtain ⟨rfl, rfl⟩ := Prod.mk.inj (hhead.symm.trans heq)
    exact ⟨rfl, rfl, hne, hfits⟩
  dsimp only
  by_cases hzero : x = 0 ∧ y = 0
  · refine .inl ⟨if_pos hzero, fun x' rest hopens => (hunique x' rest hopens).2.2.1 ?_⟩
    rw [hzero.1, hzero.2]
  obtain ⟨hx, hpos, hle⟩ := hspec.resolve_left fun h => hzero (Prod.mk.inj h)
  rw [if_neg hzero]
  have hlength : (data.length : Int) - (1 + y) = (data.drop (1 + y)).length := by
    rw [List.length_drop]
    omega
  rw [hlength]
  by_cases hlong : ((data.drop (1 + y)).length : Int) < int64 x
  · exact .inl ⟨if_pos hlong, fun x' rest hopens => absurd hlong (hunique x' rest hopens).2.2.2.not_gt⟩
  · have hopens : Opens data x (data.drop (1 + y)) :=
      ⟨not_lt.mp hshort, y, hhead, fun h => hzero (Prod.mk.inj h), rfl, not_lt.mp hlong⟩
    refine .inr ⟨x, _, hopens, hx, by rw [List.length_drop]; omega,
      fun x' rest' h => ⟨(hunique x' rest' h).1, (hunique x' rest' h).2.1⟩, ?_⟩
    rw [if_neg hlong, sliceFrom, slice, if_pos (by omega), ok_bind, Int.toNat_natCast, List.take_length]
    rfl

theorem element_error_iff (hcode : code ≠ []) :
    (∃ err, element code data = .error err) ↔ Overruns code data := by
  obtain ⟨heq, hnone⟩ | ⟨x, rest, hopens, hx, -, hunique, heq⟩ := element_cases code data
  · rw [heq]
    refine iff_of_false (fun h => ?_) fun ⟨x, rest, hopens, _⟩ => hnone x rest hopens
    obtain ⟨err, herr⟩ := h
    cases herr
  · have hfits : int64 x ≤ rest.length := by
      obtain ⟨-, y, -, -, -, hfits⟩ := hopens
      exact hfits
    obtain ⟨hout, hin⟩ := elementBody_eq hcode hx hfits
    have hoverruns : Overruns code data ↔ OutOfRange code x rest := by
      refine ⟨?_, fun h => ⟨x, rest, hopens, h⟩⟩
      rintro ⟨x', rest', hopens', h⟩
      obtain ⟨rfl, rfl⟩ := hunique x' rest' hopens'
      exact h
    rw [heq, hoverruns]
    refine ⟨fun h => ?_, hout⟩
    by_contra hnot
    obtain ⟨err, herr⟩ := h
    rw [hin hnot] at herr
    cases herr

theorem element_eq_inr_iff (hcode : code ≠ []) {next : Bytes} :
    element code data = .ok (.inr next) ↔ Passes code data next := by
  obtain ⟨heq, hnone⟩ | ⟨x, rest, hopens, hx, -, hunique, heq⟩ := element_cases code data
  · rw [heq]
    exact iff_of_false nofun fun ⟨x, rest, hopens, _⟩ => hnone x rest hopens
  · have hfits := hopens
    obtain ⟨-, y, -, -, -, hfits⟩ := hfits
    obtain ⟨hout, hin⟩ := elementBody_eq hcode hx hfits
    have hpasses : Passes code data next ↔ ¬OutOfRange code x rest ∧ ¬Matches code rest ∧ x < rest.length ∧
        next = rest.drop x := by
      refine ⟨?_, fun h => ⟨x, rest, hopens, h⟩⟩
      rintro ⟨x', rest', hopens', h⟩
      obtain ⟨rfl, rfl⟩ := hunique x' rest' hopens'
      exact h
    rw [hpasses, heq]
    by_cases hrange : OutOfRange code x rest
    · obtain ⟨err, herr⟩ := hout hrange
      rw [herr]
      exact iff_of_false nofun fun h => h.1 hrange
    · have hsmall : x < 2 ^ 63 := not_le.mp fun h => hrange (.inr (.inl h))
      rw [int64_eq (by omega) (by omega)] at hfits
      rw [hin hrange]
      split_ifs with hmatch hend
      · exact iff_of_false nofun fun h => h.2.1 hmatch
      · exact iff_of_false nofun fun h => by omega
      · have hother : ¬Matches code rest := hmatch
        simp only [Except.ok.injEq, Sum.inr.injEq, hrange, hother, not_false_eq_true, true_and, eq_comm (a := next)]
        exact (and_iff_right (by omega)).symm

theorem Passes.length_lt {next : Bytes} (h : Passes code data next) : next.length < data.length := by
  obtain ⟨x, rest, hopens, -, -, -, rfl⟩ := h
  obtain ⟨-, hnone⟩ | ⟨x', rest', -, -, hlt, hunique, -⟩ := element_cases code data
  · exact absurd hopens (hnone x rest)
  · obtain ⟨rfl, rfl⟩ := hunique x rest hopens
    rw [List.length_drop]
    omega

end Code

section Elements

/-- An element of a well-formed list. -/
structure Element where
  tag : UInt8
  length : Bytes
  innerTag : UInt8
  code : Bytes
  rest : Bytes
  code_ne : code ≠ []
  code_length : code.length < 128
  length_le : length.length ≤ 10
  body_length : rest.length + (code.length + 2) < 2 ^ 63
  varint : IsVarint length (rest.length + (code.length + 2))

namespace Element

def body (e : Element) : Bytes := e.innerTag :: UInt8.ofNat e.code.length :: (e.code ++ e.rest)

def bytes (e : Element) : Bytes := e.tag :: (e.length ++ e.body)

theorem length_body (e : Element) : e.body.length = e.rest.length + (e.code.length + 2) := by
  rw [body, List.length_cons, List.length_cons, List.length_append]
  omega

variable {code : Bytes}

theorem int64_length_body (e : Element) : int64 e.body.length = e.body.length := by
  have hlt := e.body_length
  have hlength := e.length_body
  exact int64_eq (by omega) (by omega)

theorem opens (e : Element) (tail : Bytes) : Opens (e.bytes ++ tail) e.body.length (e.body ++ tail) := by
  have hlt := e.body_length
  have hlength := e.length_body
  have hdecode : decodeLoop 10 (e.length ++ (e.body ++ tail)) 0 0 0 =
      (0 + (e.rest.length + (e.code.length + 2)) * 2 ^ 0, 0 + e.length.length) :=
    decodeLoop_append e.varint _ e.length_le (by decide) (by omega)
  have hbytes : e.bytes ++ tail = e.tag :: (e.length ++ (e.body ++ tail)) := by
    rw [bytes, List.cons_append, List.append_assoc]
  rw [hbytes]
  refine ⟨?_, e.length.length, ?_, fun h => ?_, ?_, ?_⟩
  · rw [List.length_cons, List.length_append, List.length_append]
    omega
  · rw [List.drop_one, List.tail_cons, decodeVarint, hdecode, hlength, Nat.zero_add, Nat.zero_add, pow_zero,
      Nat.mul_one]
  · have hzero := (Prod.mk.inj h).1
    omega
  · rw [Nat.add_comm, List.drop_succ_cons, List.drop_left]
  · rw [int64_length_body, List.length_append]
    omega

/-- One turn on an element. -/
theorem element_bytes (e : Element) (hcode : code ≠ []) (tail : Bytes) : element code (e.bytes ++ tail) =
    .ok (if e.code = code then .inl (some e.body) else if tail = [] then .inl none else .inr tail) := by
  have hlength := e.length_body
  have hdrop : (e.body ++ tail).drop 2 = e.code ++ (e.rest ++ tail) := by
    rw [body, List.cons_append, List.cons_append, List.drop_succ_cons, List.drop_succ_cons, List.drop_zero,
      List.append_assoc]
  have hsecond : (e.body ++ tail)[1]?.map UInt8.toNat = some e.code.length := by
    change some (UInt8.ofNat e.code.length).toNat = _
    rw [UInt8.toNat_ofNat', Nat.mod_eq_of_lt (e.code_length.trans (by decide))]
  have hmatch : (e.body ++ tail)[1]?.map UInt8.toNat = some code.length ∧ code <+: (e.body ++ tail).drop 2 ↔
      e.code = code := by
    rw [hsecond, hdrop, Option.some_inj]
    constructor
    · rintro ⟨hsame, hpre⟩
      exact ((List.prefix_of_prefix_length_le hpre (List.prefix_append _ _) hsame.ge).eq_of_length hsame.symm).symm
    · rintro rfl
      exact ⟨rfl, List.prefix_append _ _⟩
  have hin : ¬OutOfRange code e.body.length (e.body ++ tail) := by
    have hlt := e.body_length
    rintro (hshort | hbig | ⟨hsame, hpre, hne⟩)
    · rw [List.length_append] at hshort
      omega
    · omega
    · rw [hsecond, Option.some_inj] at hsame
      rw [hdrop] at hpre hne
      refine hne (hpre.eq_of_length_le ?_)
      rw [List.length_append]
      omega
  obtain ⟨-, hnone⟩ | ⟨x, rest, -, hx, -, hunique, heq⟩ := element_cases code (e.bytes ++ tail)
  · exact absurd (e.opens tail) (hnone _ _)
  obtain ⟨rfl, rfl⟩ := hunique _ _ (e.opens tail)
  have hfits : int64 e.body.length ≤ (e.body ++ tail).length := by
    rw [int64_length_body, List.length_append]
    omega
  have hend : (e.body ++ tail).length = e.body.length ↔ tail = [] := by
    rw [List.length_append, Nat.add_eq_left, List.length_eq_zero_iff]
  rw [heq, (elementBody_eq hcode hx hfits).2 hin]
  simp only [hmatch, hend, List.take_left, List.drop_left]

theorem length_bytes_pos (e : Element) : 0 < e.bytes.length := Nat.succ_pos _

theorem loop_elements (hcode : code ≠ []) (elements : List Element) {fuel : Nat}
    (hfuel : (elements.flatMap bytes).length < fuel) :
    loop .panicked (element code) fuel (elements.flatMap bytes) =
      .ok ((elements.find? (·.code = code)).map body) := by
  induction elements generalizing fuel with
  | nil =>
      obtain ⟨fuel, rfl⟩ := Nat.exists_eq_add_one_of_ne_zero (Nat.ne_zero_of_lt hfuel)
      rfl
  | cons e elements ih =>
      obtain ⟨fuel, rfl⟩ := Nat.exists_eq_add_one_of_ne_zero (Nat.ne_zero_of_lt hfuel)
      have hpos := e.length_bytes_pos
      rw [List.flatMap_cons, List.length_append] at hfuel
      rw [List.flatMap_cons, loop, e.element_bytes hcode]
      by_cases hfound : e.code = code
      · rw [if_pos hfound, List.find?_cons_of_pos (by simpa using hfound)]
        rfl
      · rw [if_neg hfound, List.find?_cons_of_neg (by simpa using hfound)]
        by_cases hnil : elements.flatMap bytes = []
        · have hempty : elements = [] := by
            cases elements with
            | nil => rfl
            | cons e' elements => exact absurd (List.append_eq_nil_iff.mp hnil).1 (List.cons_ne_nil _ _)
          rw [if_pos hnil, hempty]
          rfl
        · rw [if_neg hnil]
          exact ih (by omega)

end Element

end Elements

/-- The lookup returns, and for a well-formed list it returns the body of the first element with the code. -/
def Exact (data code : Bytes) : Prop :=
  ∃ result, find data code = .ok result ∧ ∀ elements : List Element, data = elements.flatMap Element.bytes →
    result = (elements.find? (·.code = code)).map Element.body

/-- **A lookup is exact unless it comes to an element that is out of range**, over others that it passes. -/
theorem find_exact_iff (data code : Bytes) :
    Exact data code ↔ code = [] ∨ ∀ rest, Relation.ReflTransGen (Passes code) data rest → ¬Overruns code rest := by
  by_cases hcode : code = []
  · refine iff_of_true ⟨none, by rw [find, hcode]; rfl, fun elements _ => ?_⟩ (.inl hcode)
    rw [List.find?_eq_none.mpr fun e _ => by simpa [hcode] using e.code_ne]
    rfl
  have hfind : find data code = loop .panicked (element code) (data.length + 1) data :=
    if_neg (mt List.length_eq_zero_iff.mp hcode)
  have herror : ∀ err, loop Error.panicked (element code) (data.length + 1) data = .error err ↔ _ :=
    loop_eq_error_iff (fun _ => True) List.length
      (fun s s' _ h => ⟨trivial, ((element_eq_inr_iff hcode).mp h).length_lt⟩) trivial
      (Nat.lt_succ_self data.length)
  have hwalk : Relation.ReflTransGen (Passes code) = Reaches (element code) :=
    congrArg Relation.ReflTransGen (funext₂ fun _ _ => propext (element_eq_inr_iff hcode).symm)
  rw [hwalk]
  rw [or_iff_right hcode]
  constructor
  · rintro ⟨result, hok, -⟩ rest hreach hover
    obtain ⟨err, herr⟩ := (element_error_iff hcode).mpr hover
    have hfail := (herror err).mpr ⟨rest, hreach, herr⟩
    rw [← hfind, hok] at hfail
    cases hfail
  · intro hall
    cases hresult : find data code with
    | error err =>
        obtain ⟨rest, hreach, herr⟩ := (herror err).mp (hfind ▸ hresult)
        exact absurd ((element_error_iff hcode).mp ⟨err, herr⟩) (hall rest hreach)
    | ok result =>
        refine ⟨result, hresult, ?_⟩
        rintro elements rfl
        rw [hfind, Element.loop_elements hcode elements (Nat.lt_succ_self _)] at hresult
        exact (Except.ok.inj hresult).symm

/-- An element without a body at the end of the file. -/
theorem find_not_exact : ¬Exact [0x0a, 0] [0x61] := by
  rintro ⟨result, hok, -⟩
  have hpanic : find [0x0a, 0] [0x61] = .error .panicked := rfl
  rw [hpanic] at hok
  cases hok

end V2RootCore.Conf
