import V2RootCore.Proof.Go.Link
import V2RootCore.Proof.ShareLink.Stream

/-!
# Links of servers

What the builders of VLESS, Trojan and Shadowsocks links have in common with their parsers: server
and port come before the query and the remark, and the remark is unescaped twice.
-/

namespace V2RootCore.ShareLink

open Go Utf8

/-- The user name of a link, empty if it has none. -/
def linkUser (rawURL : Bytes) : Bytes := ((Url.parse rawURL).toOption.map Url.URL.username).getD []

/-- The first outbound of a parsed link. -/
def headOutbound (result : Except Error OutputConfig) : Option OutboundConfig :=
  result.toOption.bind fun config => config.outbounds.head?

/-- The first outbound of a parsed link, as JSON keeps it. -/
def firstOutbound (result : Except Error OutputConfig) : Option OutboundConfig :=
  (headOutbound result).map OutboundConfig.readBack

theorem exists_of_isOk {ε α : Type} {result : Except ε α} (h : result.isOk = true) :
    ∃ value, result = .ok value := by
  cases result with
  | error error => cases h
  | ok value => exact ⟨value, rfl⟩

theorem headOutbound_of_outbounds {result : Except Error OutputConfig} {config : OutputConfig}
    (hresult : result = .ok config) {ob : OutboundConfig}
    (houtbounds : config.outbounds = withDefaultOutbounds ob) : headOutbound result = some ob := by
  rw [headOutbound, hresult]
  simp only [Except.toOption, Option.bind_some, houtbounds]
  rfl

theorem exists_of_headOutbound {result : Except Error OutputConfig} {ob : OutboundConfig}
    (h : headOutbound result = some ob) :
    ∃ config, result = .ok config ∧ config.outbounds.head? = some ob := by
  cases result with
  | error error => cases h
  | ok config => exact ⟨config, rfl, h⟩

/-- The arguments of a call that sets nothing but the link. -/
def defaultArgs : ParseArgs :=
  { httpPort := 10809, socksPort := 10808, routingMode := ascii "proxy" }

/-! ### Remarks -/

theorem parseRemark_eq_self_iff {remark : Bytes} : parseRemark remark = remark ↔ 37 ∉ remark := by
  constructor
  · intro h hpercent
    unfold parseRemark at h
    split at h
    · rename_i t ht
      have hcount := Url.countP_isAscii_unescape ht
      have hpos : 0 < remark.count 37 := List.count_pos_iff.mpr hpercent
      rw [h] at hcount
      omega
    · rw [← h] at hpercent
      cases hpercent
  · intro hpercent
    have hplain : Url.pathUnescape remark = .ok remark :=
      Url.unescape_of_plain (by decide) hpercent (fun hhost => absurd hhost (by decide))
    rw [parseRemark, hplain]

/-! ### Links with a query -/

def linkURL (credential address : Bytes) (port : UInt16) (query : Url.Values) (remark : Bytes) :
    Url.URL :=
  { user := some { username := credential }
    host := address ++ 58 :: formatUint port.toNat
    rawQuery := query.encode
    fragment := remark }

theorem withRemark_withQuery (scheme : String) (credential address : Bytes) (port : UInt16)
    (query : Url.Values) (remark : Bytes) :
    withRemark remark (withQuery query (authorityURI scheme credential address port))
      = Url.link (ascii scheme) credential address (formatUint port.toNat) query.encode
          (Url.pathEscape remark) := by
  have hquery : ∀ uri, withQuery query uri = uri ++ Url.optionalPart 63 query.encode := by
    intro uri
    simp only [withQuery, Url.optionalPart, Url.Values.encode_eq_nil_iff]
    split
    · simp
    · rfl
  have hremark : ∀ uri, withRemark remark uri
      = uri ++ Url.optionalPart 35 (Url.pathEscape remark) := by
    intro uri
    simp only [withRemark, Url.optionalPart, Url.pathEscape, Url.escape_eq_nil_iff]
    split
    · simp
    · rfl
  have hscheme : ascii "://" = [58, 47, 47] := by decide
  rw [hremark, hquery, authorityURI, Url.link, hscheme]
  simp

section Plain

variable {credential address remark : Bytes} {port : UInt16} {query : Url.Values}

theorem query_bytes (query : Url.Values) :
    ∀ c ∈ query.encode, Url.isControl c = false ∧ c ≠ 35 := by
  have hmarks : ascii "-_.~%+" = [45, 95, 46, 126, 37, 43] := rfl
  intro c hc
  have hbyte := Url.Values.mem_encode hc
  rw [Url.isQueryByte, Bool.or_eq_true, decide_eq_true_eq, hmarks] at hbyte
  obtain (halphanumeric | hmark) | hother := hbyte
  · obtain ⟨-, hdelimiter, hcontrol⟩ := Url.isAlphanumeric_facts halphanumeric
    refine ⟨hcontrol, ?_⟩
    rintro rfl
    cases hdelimiter
  · simp only [Url.isControl]
    grind
  · simp only [Url.isControl]
    grind

theorem parse_linkURL {scheme : String} (hne : ascii scheme ≠ [])
    (hscheme : ∀ c ∈ ascii scheme, isLetter c = true)
    (hcredential : ∀ c ∈ credential, Url.isRawUserinfoByte c = true)
    (haddress : ∀ c ∈ address, Url.isHostByte c = true) (hpercent : 37 ∉ address)
    (hopen : address.head? ≠ some 91) (port : UInt16) (query : Url.Values) (remark : Bytes) :
    Url.parse (withRemark remark (withQuery query (authorityURI scheme credential address port)))
      = .ok (linkURL credential address port query remark) := by
  rw [withRemark_withQuery]
  exact Url.parse_link hne hscheme hcredential haddress hpercent hopen (formatUint_all_isDigit _)
    (query_bytes query) (Url.unescape_escape (by decide) remark)

theorem port_linkURL : parseUint (linkURL credential address port query remark).port 16
    = some port.toNat := by
  rw [Url.URL.port, linkURL, Url.splitHostPort_append (formatUint_all_isDigit _)]
  exact parseUint_formatUint port.toNat_lt

theorem hostname_linkURL (hopen : address.head? ≠ some 91) :
    (linkURL credential address port query remark).hostname = address := by
  rw [Url.URL.hostname, linkURL, Url.splitHostPort_append (formatUint_all_isDigit _)]
  exact Url.stripBrackets_of_head hopen

theorem param_linkURL (hquery : query.Distinct) (key : String) :
    param (linkURL credential address port query remark).query key = param query key :=
  Url.Values.get_parseQuery_encode hquery (ascii key)

end Plain

/-! ### Steps of the parsers -/

theorem parseURL_eq_ok {context : String} {rawURL : Bytes} {u : Url.URL} :
    parseURL context rawURL = .ok u ↔ Url.parse rawURL = .ok u := by
  cases h : Url.parse rawURL with
  | error error => simp [parseURL, h, Except.mapError]
  | ok parsed => simp [parseURL, h, Except.mapError]

theorem orDefault_ne_nil {value default : Bytes} (h : default ≠ []) : orDefault value default ≠ [] := by
  unfold orDefault
  split
  · exact h
  · assumption

theorem parsePort_eq_ok {context : String} {text : Bytes} {port : UInt16}
    (h : parsePort context text = .ok port) : text ≠ [] := by
  unfold parsePort at h
  split at h
  · rename_i n hn
    rintro rfl
    cases hn
  · cases h

theorem parsePort_of_parseUint {context : String} {text : Bytes} {port : UInt16}
    (h : parseUint text 16 = some port.toNat) : parsePort context text = .ok port := by
  rw [parsePort, h]
  simp

end V2RootCore.ShareLink
