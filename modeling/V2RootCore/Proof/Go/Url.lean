import V2RootCore.Proof.Go.Query

/-!
# Parsing URLs of the form `scheme://user@host:port?query#fragment`

For a URL put together from parts that need no escaping, parsing finds the parts. For one put
together from arbitrary parts, this module says what can be concluded from the parts being found:
which bytes the user name and the host name are made of.
-/

namespace V2RootCore.Go.Url

open Utf8

variable {c : UInt8} {userinfo : Bytes}

/-! ### Parts of a URL -/

def isDelimiter (c : UInt8) : Bool := c = 47 || c = 63 || c = 35

def authorityPart (rest : Bytes) : Bytes := rest.takeWhile fun c => !isDelimiter c

/-- `sep` and a part, or nothing for an empty part. -/
def optionalPart (sep : UInt8) (s : Bytes) : Bytes := if s = [] then [] else sep :: s

def parseAfterScheme (rest : Bytes) : Except Error URL :=
  if (cut 35 rest).1.any isControl then .error .invalidControlCharacter
  else do
    let (user, host) ← parseAuthority (authorityPart rest)
    let _ ← unescape ((cut 63 (cut 35 rest).1).1.dropWhile (· ≠ 47)) .path
    let fragment ← unescape (cut 35 rest).2 .fragment
    .ok { user, host, rawQuery := (cut 63 (cut 35 rest).1).2, fragment }

theorem isSchemeByte_of_isLetter (hc : isLetter c = true) :
    isSchemeByte c = true ∧ isControl c = false ∧ c ≠ 35 := by
  simp only [isLetter, Bool.or_eq_true, Bool.and_eq_true, decide_eq_true_eq] at hc
  simp only [isSchemeByte, isAlphanumeric, isLetter, isControl]
  grind

theorem getScheme_append {scheme : Bytes} (hne : scheme ≠ [])
    (hscheme : ∀ c ∈ scheme, isLetter c = true) (rest : Bytes) :
    getScheme (scheme ++ 58 :: rest) = .ok (scheme, rest) := by
  have hbytes : ∀ c ∈ scheme, isSchemeByte c = true :=
    fun c hc => (isSchemeByte_of_isLetter (hscheme c hc)).1
  have hcolon : ¬ isSchemeByte 58 = true := by decide
  have htake : (scheme ++ 58 :: rest).takeWhile isSchemeByte = scheme := by
    rw [List.takeWhile_append_of_pos hbytes, List.takeWhile_cons_of_neg hcolon, List.append_nil]
  have hdrop : (scheme ++ 58 :: rest).dropWhile isSchemeByte = 58 :: rest := by
    rw [List.dropWhile_append_of_pos hbytes, List.dropWhile_cons_of_neg hcolon]
  cases scheme with
  | nil => exact absurd rfl hne
  | cons c scheme =>
      rw [getScheme, htake, hdrop]
      simp [hscheme c List.mem_cons_self]

theorem authorityPart_eq (rest : Bytes) :
    (cut 63 (cut 35 rest).1).1.takeWhile (· ≠ 47) = authorityPart rest := by
  have hbytes : ∀ c : UInt8, decide ((decide (c ≠ 47) = true) ∧
      decide ((decide (c ≠ 63) = true) ∧ decide (c ≠ 35) = true) = true) = !isDelimiter c := by
    intro c
    simp [isDelimiter, Bool.and_assoc]
  simp only [cut, List.takeWhile_takeWhile, authorityPart, hbytes]

theorem parse_scheme {scheme : Bytes} (hne : scheme ≠ [])
    (hscheme : ∀ c ∈ scheme, isLetter c = true) (rest : Bytes) :
    parse (scheme ++ 58 :: 47 :: 47 :: rest) = parseAfterScheme rest := by
  have hhash : 35 ∉ scheme ++ [58, 47, 47] := by
    simp only [List.mem_append, not_or]
    exact ⟨fun hmem => (isSchemeByte_of_isLetter (hscheme 35 hmem)).2.2 rfl, by decide⟩
  have hcut : cut 35 (scheme ++ 58 :: 47 :: 47 :: rest)
      = (scheme ++ 58 :: 47 :: 47 :: (cut 35 rest).1, (cut 35 rest).2) := by
    simpa using cut_append_left hhash rest
  have hcontrol : (scheme ++ 58 :: 47 :: 47 :: (cut 35 rest).1).any isControl
      = (cut 35 rest).1.any isControl := by
    have hnone : scheme.any isControl = false := by
      rw [List.any_eq_false]
      intro c hc
      simp [(isSchemeByte_of_isLetter (hscheme c hc)).2.1]
    have hslashes : isControl 58 = false ∧ isControl 47 = false := by decide
    simp [hnone, hslashes]
  have hstar : scheme ++ 58 :: 47 :: 47 :: (cut 35 rest).1 ≠ ascii "*" := by
    intro heq
    have hlength := congrArg List.length heq
    simp [ascii] at hlength
    omega
  have hquery : cut 63 (47 :: 47 :: (cut 35 rest).1)
      = (47 :: 47 :: (cut 63 (cut 35 rest).1).1, (cut 63 (cut 35 rest).1).2) := by
    have hslashes : (63 : UInt8) ∉ ([47, 47] : Bytes) := by decide
    simpa using cut_append_left hslashes (cut 35 rest).1
  rw [parse, hcut, parseUnfragmented, hcontrol, parseAfterScheme]
  cases hany : (cut 35 rest).1.any isControl with
  | true => rfl
  | false =>
      simp only [Bool.false_eq_true, if_false, if_neg hstar, getScheme_append hne hscheme]
      have hslash : hasPrefix (47 :: 47 :: (cut 63 (cut 35 rest).1).1) (ascii "/") = true :=
        hasPrefix_append (ascii "/") _
      have hslashes : hasPrefix (47 :: 47 :: (cut 63 (cut 35 rest).1).1) (ascii "//") = true :=
        hasPrefix_append (ascii "//") _
      simp only [bind, Except.bind, hquery, hslash, hslashes, Bool.not_true, Bool.false_and,
        Bool.false_eq_true, if_false, ne_eq, hne, not_false_eq_true, decide_true, Bool.true_or,
        Bool.and_true, if_true, List.drop_succ_cons, List.drop_zero]
      rw [← authorityPart_eq]
      cases parseAuthority ((cut 63 (cut 35 rest).1).1.takeWhile (· ≠ 47)) with
      | error error => rfl
      | ok parts =>
          cases unescape ((cut 63 (cut 35 rest).1).1.dropWhile (· ≠ 47)) .path with
          | error error => simp
          | ok path => simp

theorem parseAfterScheme_eq_ok {rest : Bytes} {u : URL} (h : parseAfterScheme rest = .ok u) :
    parseAuthority (authorityPart rest) = .ok (u.user, u.host) := by
  unfold parseAfterScheme at h
  split at h
  · cases h
  · obtain ⟨parts, hauthority, h⟩ := bind_eq_ok.mp h
    obtain ⟨path, -, h⟩ := bind_eq_ok.mp h
    obtain ⟨fragment, -, h⟩ := bind_eq_ok.mp h
    rw [hauthority, ← Except.ok.inj h]

/-! ### Authorities -/

theorem authorityPart_append {authority tail : Bytes}
    (hauthority : ∀ c ∈ authority, isDelimiter c = false)
    (htail : ∀ c, tail.head? = some c → isDelimiter c = true) :
    authorityPart (authority ++ tail) = authority := by
  have hall : ∀ c ∈ authority, (!isDelimiter c) = true := by
    intro c hc
    rw [hauthority c hc, Bool.not_false]
  rw [authorityPart, List.takeWhile_append_of_pos hall]
  cases tail with
  | nil => simp
  | cons c tail =>
      have hc : ¬ (!isDelimiter c) = true := by simp [htail c rfl]
      rw [List.takeWhile_cons, if_neg hc, List.append_nil]

theorem authorityPart_append_of_mem {s : Bytes} (hc : c ∈ s) (hdelimiter : isDelimiter c = true)
    (tail : Bytes) :
    authorityPart (s ++ tail) = authorityPart s ∧ (authorityPart s).length < s.length := by
  have hlength : (authorityPart s).length < s.length := by
    refine lt_of_le_of_ne ((List.takeWhile_prefix _).length_le) ?_
    intro heq
    have hself : s.takeWhile (fun c => !isDelimiter c) = s :=
      (List.takeWhile_prefix _).eq_of_length heq
    have hno := List.takeWhile_eq_self_iff.mp hself c hc
    rw [hdelimiter] at hno
    cases hno
  refine ⟨?_, hlength⟩
  exact (List.takeWhile_append ..).trans (if_neg (ne_of_lt hlength))

/-! ### User names -/

/-- The bytes of a user name that stand for themselves. -/
def isRawUserinfoByte (c : UInt8) : Bool := isUserinfoByte c && c ≠ 58 && c ≠ 37

theorem isUserinfoByte_cases (hc : isUserinfoByte c = true) :
    isAlphanumeric c = true ∨ c ∈ ascii "-._:~!$&'()*+,;=%@" := by
  simpa [isUserinfoByte] using hc

theorem isAlphanumeric_facts (hc : isAlphanumeric c = true) :
    isAscii c = true ∧ isDelimiter c = false ∧ isControl c = false := by
  simp only [isAlphanumeric, isLetter, isDigit, Bool.or_eq_true, Bool.and_eq_true, decide_eq_true_eq] at hc
  simp only [isAscii, isDelimiter, isControl]
  grind

theorem isUserinfoByte_facts (hc : isUserinfoByte c = true) :
    isAscii c = true ∧ isDelimiter c = false ∧ isControl c = false := by
  obtain halphanumeric | hmark := isUserinfoByte_cases hc
  · exact isAlphanumeric_facts halphanumeric
  · have hmarks : ∀ c ∈ ascii "-._:~!$&'()*+,;=%@",
        isAscii c = true ∧ isDelimiter c = false ∧ isControl c = false := by
      decide +kernel
    exact hmarks c hmark

theorem isAscii_of_isUserinfoByte (hc : isUserinfoByte c = true) : isAscii c = true :=
  (isUserinfoByte_facts hc).1

theorem isRawUserinfoByte_imp (hc : isRawUserinfoByte c = true) :
    isUserinfoByte c = true ∧ c ≠ 58 ∧ c ≠ 37 ∧ isDelimiter c = false ∧ isControl c = false := by
  obtain ⟨⟨huserinfo, hcolon⟩, hpercent⟩ : (isUserinfoByte c = true ∧ c ≠ 58) ∧ c ≠ 37 := by
    simpa [isRawUserinfoByte] using hc
  exact ⟨huserinfo, hcolon, hpercent, (isUserinfoByte_facts huserinfo).2⟩

theorem validUserinfo_cut (hvalid : validUserinfo userinfo = true) :
    ∀ c ∈ (cut 58 userinfo).1, isAscii c = true := by
  intro c hc
  have hmem : c ∈ userinfo := (List.takeWhile_prefix _).subset hc
  exact isAscii_of_isUserinfoByte (List.all_eq_true.mp hvalid c hmem)

theorem parseUserinfo_eq_ok {user : Userinfo} (h : parseUserinfo userinfo = .ok user) :
    validUserinfo userinfo = true ∧
      unescape (cut 58 userinfo).1 .userPassword = .ok user.username := by
  unfold parseUserinfo at h
  split at h
  · rename_i hvalid
    refine ⟨hvalid, ?_⟩
    split at h
    · obtain ⟨username, hname, h⟩ := bind_eq_ok.mp h
      obtain ⟨password, -, h⟩ := bind_eq_ok.mp h
      rw [hname, ← Except.ok.inj h]
    · rename_i hcolon
      obtain ⟨username, hname, h⟩ := bind_eq_ok.mp h
      rw [cut_of_notMem hcolon, hname, ← Except.ok.inj h]
  · cases h

theorem length_username_le {user : Userinfo} (h : parseUserinfo userinfo = .ok user) :
    (coerce user.username).length ≤ (cut 58 userinfo).1.length := by
  obtain ⟨hvalid, hname⟩ := parseUserinfo_eq_ok h
  exact length_coerce_unescape_le hname (validUserinfo_cut hvalid)

theorem length_cut_le (sep : UInt8) (s : Bytes) : (cut sep s).1.length ≤ s.length :=
  (List.takeWhile_prefix _).length_le

theorem isRawUserinfoByte_of_parseUserinfo {user : Userinfo} (h : parseUserinfo userinfo = .ok user)
    (hsame : coerce user.username = userinfo) :
    ∀ c ∈ userinfo, isRawUserinfoByte c = true := by
  obtain ⟨hvalid, hname⟩ := parseUserinfo_eq_ok h
  have hcolon : 58 ∉ userinfo := by
    intro hmem
    have hle := length_username_le h
    obtain ⟨before, after, rfl, hnot⟩ := List.eq_append_cons_of_mem hmem
    rw [hsame, cut_append hnot] at hle
    simp only [List.length_append, List.length_cons] at hle
    omega
  rw [cut_of_notMem hcolon] at hname
  have hpercent : 37 ∉ userinfo := fun hmem => coerce_unescape_ne hname hmem hsame
  intro c hc
  have hne : c ≠ 58 ∧ c ≠ 37 := by
    constructor
    · rintro rfl
      exact hcolon hc
    · rintro rfl
      exact hpercent hc
  simp [isRawUserinfoByte, List.all_eq_true.mp hvalid c hc, hne]

theorem parseUserinfo_of_raw (hraw : ∀ c ∈ userinfo, isRawUserinfoByte c = true) :
    parseUserinfo userinfo = .ok { username := userinfo } := by
  have hvalid : validUserinfo userinfo = true :=
    List.all_eq_true.mpr fun c hc => (isRawUserinfoByte_imp (hraw c hc)).1
  have hcolon : 58 ∉ userinfo := fun hmem => (isRawUserinfoByte_imp (hraw 58 hmem)).2.1 rfl
  have hpercent : 37 ∉ userinfo := fun hmem => (isRawUserinfoByte_imp (hraw 37 hmem)).2.2.1 rfl
  have hread : unescape userinfo .userPassword = .ok userinfo :=
    unescape_of_plain (by decide) hpercent (fun hhost => absurd hhost (by decide))
  rw [parseUserinfo, if_pos hvalid, if_neg hcolon, hread]
  rfl

end V2RootCore.Go.Url
