import V2RootCore.Proof.Go.Host

/-!
# Links

A link is put together from a user name, a host name and a port as they are, a query string and a
fragment. It is parsed into these parts again exactly if user name and host name stand for themselves.
-/

namespace V2RootCore.Go.Url

open Utf8

/-- `scheme://user@host:digits?query#fragment`, where an empty query or fragment is left out. -/
def link (scheme user host digits query fragment : Bytes) : Bytes :=
  scheme ++ 58 :: 47 :: 47 ::
    (user ++ 64 :: (host ++ 58 :: digits) ++ (optionalPart 63 query ++ optionalPart 35 fragment))

theorem cut_optionalPart {sep : UInt8} {s : Bytes} (h : sep ∉ s) (t : Bytes) :
    cut sep (s ++ optionalPart sep t) = (s, t) := by
  unfold optionalPart
  split
  · rename_i hnil
    rw [List.append_nil, cut_of_notMem h, hnil]
  · exact cut_append h t

theorem mem_optionalPart {sep c : UInt8} {s : Bytes} (hc : c ∈ optionalPart sep s) :
    c = sep ∨ c ∈ s := by
  unfold optionalPart at hc
  split at hc
  · cases hc
  · exact List.mem_cons.mp hc

theorem head_optionalParts {query fragment : Bytes} {c : UInt8}
    (hc : (optionalPart 63 query ++ optionalPart 35 fragment).head? = some c) :
    isDelimiter c = true := by
  unfold optionalPart at hc
  split at hc
  · split at hc
    · cases hc
    · rw [← Option.some.inj hc]
      rfl
  · rw [← Option.some.inj hc]
    rfl

/-! ### Hosts of parsed URLs -/

theorem parseAuthority_host {authority host : Bytes} {user : Option Userinfo}
    (h : parseAuthority authority = .ok (user, host)) : ∃ s, parseHost s = .ok host := by
  unfold parseAuthority at h
  split at h
  · obtain ⟨parsed, hhost, h⟩ := bind_eq_ok.mp h
    obtain ⟨-, rfl⟩ := Prod.mk.inj (Except.ok.inj h)
    exact ⟨_, hhost⟩
  · obtain ⟨parsed, hhost, h⟩ := bind_eq_ok.mp h
    obtain ⟨parsedUser, -, h⟩ := bind_eq_ok.mp h
    obtain ⟨-, rfl⟩ := Prod.mk.inj (Except.ok.inj h)
    exact ⟨_, hhost⟩

theorem length_coerce_username_le {authority : Bytes} {u : URL}
    (h : parseAuthority authority = .ok (u.user, u.host)) :
    (coerce u.username).length ≤ authority.length := by
  unfold parseAuthority at h
  split at h
  · obtain ⟨parsed, -, h⟩ := bind_eq_ok.mp h
    have huser : none = u.user := (Prod.mk.inj (Except.ok.inj h)).1
    rw [URL.username, ← huser]
    exact Nat.zero_le _
  · rename_i userinfo host hcut
    obtain ⟨heq, -⟩ := cutLast_eq_some hcut
    obtain ⟨parsed, -, h⟩ := bind_eq_ok.mp h
    obtain ⟨user, hparsed, h⟩ := bind_eq_ok.mp h
    have huser : some user = u.user := (Prod.mk.inj (Except.ok.inj h)).1
    rw [URL.username, ← huser, heq]
    calc (coerce user.username).length ≤ (cut 58 userinfo).1.length := length_username_le hparsed
      _ ≤ userinfo.length := length_cut_le 58 userinfo
      _ ≤ (userinfo ++ 64 :: host).length := by simp

theorem parse_host {raw : Bytes} {u : URL} (h : parse raw = .ok u) :
    u.host = [] ∨ ∃ s, parseHost s = .ok u.host := by
  obtain ⟨url, hurl, h⟩ := bind_eq_ok.mp h
  obtain ⟨fragment, -, h⟩ := bind_eq_ok.mp h
  obtain rfl := Except.ok.inj h
  unfold parseUnfragmented at hurl
  split at hurl
  · cases hurl
  · split at hurl
    · rw [← Except.ok.inj hurl]
      exact Or.inl rfl
    · obtain ⟨⟨scheme, rest⟩, -, hurl⟩ := bind_eq_ok.mp hurl
      simp only at hurl
      split at hurl
      · rw [← Except.ok.inj hurl]
        exact Or.inl rfl
      · split at hurl
        · cases hurl
        · split at hurl
          · obtain ⟨⟨user, host⟩, hauthority, hurl⟩ := bind_eq_ok.mp hurl
            obtain ⟨path, -, hurl⟩ := bind_eq_ok.mp hurl
            rw [← Except.ok.inj hurl]
            exact Or.inr (parseAuthority_host hauthority)
          · obtain ⟨path, -, hurl⟩ := bind_eq_ok.mp hurl
            rw [← Except.ok.inj hurl]
            exact Or.inl rfl

theorem hostname_subset (u : URL) : ∀ c ∈ u.hostname, c ∈ u.host := by
  intro c hc
  unfold URL.hostname splitHostPort at hc
  split at hc
  · rename_i name port hcut
    obtain ⟨heq, -⟩ := cutLast_eq_some hcut
    split at hc
    · rw [heq]
      exact List.mem_append_left _ ((stripBrackets_sublist _).subset hc)
    · exact (stripBrackets_sublist _).subset hc
  · exact (stripBrackets_sublist _).subset hc

theorem mem_coerce_hostname {raw : Bytes} {u : URL} (h : parse raw = .ok u) :
    ∀ c ∈ coerce u.hostname, isHostnameByte c = true := by
  intro c hc
  by_cases hascii : isAscii c = true
  · have hmem := hostname_subset u c (isAscii_imp_mem_of_mem_coerce hc hascii)
    rcases parse_host h with hnil | ⟨s, hs⟩
    · rw [hnil] at hmem
      cases hmem
    · exact mem_parseHost hs c hmem
  · simp [isHostnameByte, isHostByte, hascii]

theorem isHostByte_of_mem_hostname {raw : Bytes} {u : URL} (h : parse raw = .ok u)
    (hport : u.port ≠ []) (hpercent : 37 ∉ coerce u.hostname) :
    ∀ c ∈ coerce u.hostname, isHostByte c = true := by
  intro c hc
  have hbyte := mem_coerce_hostname h c hc
  simp only [isHostnameByte, Bool.or_eq_true, decide_eq_true_eq] at hbyte
  obtain (hhost | rfl) | rfl := hbyte
  · exact hhost
  · exact absurd hc hpercent
  · have hspace : 32 ∈ u.hostname := isAscii_imp_mem_of_mem_coerce hc (by decide)
    rcases parse_host h with hnil | ⟨s, hs⟩
    · have := hostname_subset u 32 hspace
      rw [hnil] at this
      cases this
    · have hmem : 37 ∈ u.hostname := percent_mem_hostname hs hport hspace
      have hfilter : 37 ∈ (coerce u.hostname).filter isAscii := by
        rw [filter_isAscii_coerce]
        exact List.mem_filter.mpr ⟨hmem, by decide⟩
      exact absurd (List.mem_filter.mp hfilter).1 hpercent

/-! ### Parsing a link -/

section Link

variable {scheme user host digits query fragment : Bytes}

section Authority

variable (hhost : ∀ c ∈ host, isHostnameByte c = true) (hdigits : digits.all isDigit = true)

include hhost hdigits

theorem hostPort_bytes : ∀ c ∈ host ++ 58 :: digits, isHostnameByte c = true := by
  intro c hc
  rcases List.mem_append.mp hc with hc | hc
  · exact hhost c hc
  · simp [isHostnameByte, (colonPort_bytes hdigits c hc).1]

theorem cutLast_authority :
    cutLast 64 (user ++ 64 :: (host ++ 58 :: digits)) = some (user, host ++ 58 :: digits) :=
  cutLast_append (fun hmem => (isHostnameByte_imp (hostPort_bytes hhost hdigits 64 hmem)).2.1 rfl) user

theorem authority_bytes (huser : ∀ c ∈ user, isRawUserinfoByte c = true) :
    ∀ c ∈ user ++ 64 :: (host ++ 58 :: digits), isDelimiter c = false ∧ isControl c = false := by
  intro c hc
  rcases List.mem_append.mp hc with hc | hc
  · exact (isRawUserinfoByte_imp (huser c hc)).2.2.2
  · rcases List.mem_cons.mp hc with rfl | hc
    · decide
    · have hbyte := isHostnameByte_imp (hostPort_bytes hhost hdigits c hc)
      exact ⟨hbyte.1, hbyte.2.2⟩

end Authority

/-- **A link is parsed into its parts** if user name and host name stand for themselves. -/
theorem parse_link (hne : scheme ≠ []) (hscheme : ∀ c ∈ scheme, isLetter c = true)
    (huser : ∀ c ∈ user, isRawUserinfoByte c = true) (hhost : ∀ c ∈ host, isHostByte c = true)
    (hpercent : 37 ∉ host) (hopen : host.head? ≠ some 91) (hdigits : digits.all isDigit = true)
    (hquery : ∀ c ∈ query, isControl c = false ∧ c ≠ 35) {remark : Bytes}
    (hfragment : unescape fragment .fragment = .ok remark) :
    parse (link scheme user host digits query fragment) = .ok {
      user := some { username := user }
      host := host ++ 58 :: digits
      rawQuery := query
      fragment := remark } := by
  have hname : ∀ c ∈ host, isHostnameByte c = true := by
    intro c hc
    simp [isHostnameByte, hhost c hc]
  have hbytes := authority_bytes hname hdigits huser
  set authority := user ++ 64 :: (host ++ 58 :: digits) with hauthority
  have hnot : ∀ {sep : UInt8}, isDelimiter sep = true → sep ∉ authority := by
    intro sep hsep hmem
    rw [(hbytes sep hmem).1] at hsep
    cases hsep
  have hhash : 35 ∉ authority ++ optionalPart 63 query := by
    intro hmem
    rcases List.mem_append.mp hmem with hmem | hmem
    · exact hnot (by decide) hmem
    · rcases mem_optionalPart hmem with heq | hmem
      · exact absurd heq (by decide)
      · exact (hquery 35 hmem).2 rfl
  have hcut : cut 35 (authority ++ (optionalPart 63 query ++ optionalPart 35 fragment))
      = (authority ++ optionalPart 63 query, fragment) := by
    rw [← List.append_assoc]
    exact cut_optionalPart hhash fragment
  have hcontrol : (authority ++ optionalPart 63 query).any isControl = false := by
    rw [List.any_eq_false]
    intro c hc
    rw [Bool.not_eq_true]
    rcases List.mem_append.mp hc with hc | hc
    · exact (hbytes c hc).2
    · rcases mem_optionalPart hc with rfl | hc
      · decide
      · exact (hquery c hc).1
  have hpath : authority.dropWhile (· ≠ 47) = [] := by
    rw [List.dropWhile_eq_nil_iff]
    intro c hc
    refine decide_eq_true ?_
    rintro rfl
    exact hnot (by decide) hc
  have hparts : parseAuthority authority = .ok (some { username := user }, host ++ 58 :: digits) := by
    rw [parseAuthority, hauthority, cutLast_authority hname hdigits]
    simp only [parseHost_of_plain hdigits hhost hpercent hopen, parseUserinfo_of_raw huser]
    rfl
  rw [link, parse_scheme hne hscheme, parseAfterScheme, hcut, hcontrol,
    authorityPart_append (fun c hc => (hbytes c hc).1) (fun c hc => head_optionalParts hc), hparts,
    cut_optionalPart (hnot (by decide)) query]
  simp only [hpath, hfragment]
  rfl

variable {u : URL} (hne : scheme ≠ []) (hscheme : ∀ c ∈ scheme, isLetter c = true)
  (hhost : ∀ c ∈ host, isHostnameByte c = true) (hdigits : digits.all isDigit = true)
  (hparse : parse (link scheme user host digits query fragment) = .ok u)

include hne hscheme hhost hdigits hparse

theorem parts_of_parse_link (huser : ∀ c ∈ user, isDelimiter c = false) :
    ∃ userinfo, u.user = some userinfo ∧ parseUserinfo user = .ok userinfo ∧
      parseHost (host ++ 58 :: digits) = .ok u.host := by
  rw [link, parse_scheme hne hscheme] at hparse
  have hauthority := parseAfterScheme_eq_ok hparse
  have hbytes : ∀ c ∈ user ++ 64 :: (host ++ 58 :: digits), isDelimiter c = false := by
    intro c hc
    rcases List.mem_append.mp hc with hc | hc
    · exact huser c hc
    · rcases List.mem_cons.mp hc with rfl | hc
      · decide
      · exact (isHostnameByte_imp (hostPort_bytes hhost hdigits c hc)).1
  rw [authorityPart_append hbytes (fun c hc => head_optionalParts hc), parseAuthority,
    cutLast_authority hhost hdigits] at hauthority
  obtain ⟨parsed, hparsed, hauthority⟩ := bind_eq_ok.mp hauthority
  obtain ⟨userinfo, huserinfo, hauthority⟩ := bind_eq_ok.mp hauthority
  obtain ⟨husereq, rfl⟩ := Prod.mk.inj (Except.ok.inj hauthority)
  exact ⟨userinfo, husereq.symm, huserinfo, hparsed⟩

/-- **A link whose parsing finds the parts.** User name and host name stand for themselves. -/
theorem plain_of_parse_link (hdigits' : digits ≠ []) (husername : coerce u.username = user)
    (hhostname : coerce u.hostname = host) :
    (∀ c ∈ user, isRawUserinfoByte c = true) ∧ 37 ∉ host ∧ host.head? ≠ some 91 := by
  -- a delimiter in the user name would cut it short
  have hdelimiter : ∀ c ∈ user, isDelimiter c = false := by
    intro c hc
    by_contra hdelimiter
    rw [Bool.not_eq_false] at hdelimiter
    have hauthority := hparse
    rw [link, parse_scheme hne hscheme] at hauthority
    have hauthority := parseAfterScheme_eq_ok hauthority
    obtain ⟨hcut, hshort⟩ := authorityPart_append_of_mem hc hdelimiter
      (64 :: (host ++ 58 :: digits) ++ (optionalPart 63 query ++ optionalPart 35 fragment))
    rw [← List.append_assoc] at hcut
    rw [hcut] at hauthority
    have hlength : (coerce u.username).length < user.length :=
      lt_of_le_of_lt (length_coerce_username_le hauthority) hshort
    rw [husername] at hlength
    exact lt_irrefl _ hlength
  obtain ⟨userinfo, husereq, huserinfo, hparsed⟩ :=
    parts_of_parse_link hne hscheme hhost hdigits hparse hdelimiter
  rw [URL.username, husereq] at husername
  exact ⟨isRawUserinfoByte_of_parseUserinfo huserinfo husername,
    plain_of_parseHost hdigits hdigits' hparsed hhostname⟩

end Link

end V2RootCore.Go.Url
