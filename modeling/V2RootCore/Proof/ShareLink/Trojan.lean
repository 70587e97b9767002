import Mathlib
import V2RootCore.Proof.ShareLink.Link

/-!
# Round trips of Trojan links

For a Trojan outbound with a plain password and remark, exporting and parsing again gives the same
outbound exactly if its address needs no escaping and no string of its settings is changed by JSON.
-/

namespace V2RootCore.ShareLink

open Go Utf8

/-! ### Parsing -/

theorem parseTrojan_eq_ok {rawURL : Bytes} {args : ParseArgs} {config : OutputConfig}
    (h : parseTrojan rawURL args = .ok config) :
    ∃ u port streamSettings, Url.parse rawURL = .ok u ∧ u.port ≠ [] ∧
      trojanStreamSettings (param u.query) = .ok streamSettings ∧
      config.outbounds = withDefaultOutbounds (trojanOutbound u port streamSettings) := by
  obtain ⟨u, hu, h⟩ := bind_eq_ok.mp h
  obtain ⟨port, hport, h⟩ := bind_eq_ok.mp h
  obtain ⟨streamSettings, hstream, h⟩ := bind_eq_ok.mp h
  refine ⟨u, port, streamSettings, parseURL_eq_ok.mp hu, parsePort_eq_ok hport, hstream, ?_⟩
  rw [← Except.ok.inj h]
  rfl

theorem parseTrojan_of_parse {rawURL : Bytes} {args : ParseArgs} {u : Url.URL} {port : UInt16}
    (hparse : Url.parse rawURL = .ok u) (hport : parseUint u.port 16 = some port.toNat)
    {streamSettings : StreamSettings}
    (hstream : trojanStreamSettings (param u.query) = .ok streamSettings) :
    ∃ config, parseTrojan rawURL args = .ok config ∧
      config.outbounds = withDefaultOutbounds (trojanOutbound u port streamSettings) := by
  refine ⟨args.output (createDefaultInbounds args.httpPort args.socksPort)
    (withDefaultOutbounds (trojanOutbound u port streamSettings)), ?_, rfl⟩
  rw [parseTrojan, parseURL_eq_ok.mpr hparse]
  simp only [bind, Except.bind, parsePort_of_parseUint hport, hstream]

/-! ### The parameters of a Trojan link -/

def trojanBase (server : TrojanServer) (streamSettings : StreamSettings) : Url.Values :=
  setNonempty (setUnless (setNonempty [] "flow" server.flow) "type" streamSettings.network
    (ascii "tcp")) "security" streamSettings.security

section Query

variable (server : TrojanServer) (streamSettings : StreamSettings)

theorem trojanBase_setsOnly :
    (∀ key, ascii key ∉ names ["flow", "type", "security"] →
      param (trojanBase server streamSettings) key = []) ∧
      (trojanBase server streamSettings).Distinct := by
  have h : SetsOnly ["flow", "type", "security"] _ :=
    (SetsOnly.setNonempty "security" streamSettings.security).comp
      ((SetsOnly.setUnless "type" streamSettings.network (ascii "tcp")).comp
        (SetsOnly.setNonempty "flow" server.flow))
  exact ⟨fun key hkey => h.param_eq [] key hkey, h.distinct [] Map.distinct_nil⟩

theorem trojanQuery_eq :
    trojanQuery server streamSettings
      = setTransports streamSettings (setSecurity streamSettings (trojanBase server streamSettings)) :=
  rfl

theorem trojanQuery_distinct :
    (trojanQuery server streamSettings).Distinct :=
  (SetsOnly.setTransports streamSettings).distinct _
    ((SetsOnly.setSecurity streamSettings).distinct _ (trojanBase_setsOnly server streamSettings).2)

variable {server streamSettings} {get : String → Bytes}

theorem param_trojanQuery {key : String}
    (hkey : ascii key ∉ names (securityKeys ++ transportKeys)) :
    param (trojanQuery server streamSettings) key = param (trojanBase server streamSettings) key := by
  have h : SetsOnly (securityKeys ++ transportKeys) _ :=
    (SetsOnly.setTransports streamSettings).comp (SetsOnly.setSecurity streamSettings)
  exact h.param_eq _ key hkey

theorem param_trojanQuery_flow :
    param (trojanQuery server streamSettings) "flow" = server.flow := by
  rw [param_trojanQuery (by decide), trojanBase,
    (SetsOnly.setNonempty "security" _).param_eq _ "flow" (by decide),
    (SetsOnly.setUnless "type" _ _).param_eq _ "flow" (by decide), param_setNonempty_self]
  rfl

theorem trojanStreamSettings_trojanQuery (hparse : trojanStreamSettings get = .ok streamSettings) :
    trojanStreamSettings (param (trojanQuery server streamSettings)) = .ok streamSettings ↔
      streamSettings.Expressible := by
  obtain ⟨-, hsecurity, hnetwork, -⟩ := parseStreamSettings_eq_ok hparse
  obtain ⟨hbase, -⟩ := trojanBase_setsOnly server streamSettings
  have hsecurity' : orDefault (param (trojanQuery server streamSettings) "security") (ascii "tls")
      = streamSettings.security := by
    have hne : streamSettings.security ≠ [] := by
      rw [hsecurity]
      exact orDefault_ne_nil (by decide)
    rw [param_trojanQuery (by decide), trojanBase, param_setNonempty_self, orDefault, if_neg hne]
    rw [(SetsOnly.setUnless "type" _ _).param_eq _ "security" (by decide)]
    exact (SetsOnly.setNonempty "flow" _).param_eq [] "security" (by decide)
  have hnetwork' : orDefault (param (trojanQuery server streamSettings) "type") (ascii "tcp")
      = streamSettings.network := by
    rw [param_trojanQuery (by decide), trojanBase,
      (SetsOnly.setNonempty "security" _).param_eq _ "type" (by decide)]
    refine orDefault_setUnless ?_ (by rw [hnetwork]; exact orDefault_ne_nil (by decide))
    exact (SetsOnly.setNonempty "flow" _).param_eq [] "type" (by decide)
  refine parseStreamSettings_set splits_splitOn hparse (.inl (trojanQuery_eq server streamSettings))
    (fun key hkey => hbase key ?_) hsecurity' hnetwork'
  revert key
  decide

end Query

/-! ### The round trip -/

def trojanServers (ob : OutboundConfig) : List TrojanServer :=
  match ob.settings with
  | .trojan settings => settings.servers
  | _ => []

/-- The characters of a URL that are never escaped. -/
def isUnreserved (c : UInt8) : Bool := isAlphanumeric c || c ∈ ascii "-._~"

/-- A Trojan outbound with a host name or IPv4 address, a plain password and remark, and no settings
that links leave out. -/
def TrojanPlain (ob : OutboundConfig) : Prop :=
  (∀ server ∈ trojanServers ob, 58 ∉ server.address ∧ server.password ≠ [] ∧
    ∀ c ∈ server.password, isUnreserved c = true) ∧
    37 ∉ ob.remark ∧
    ∀ streamSettings ∈ ob.streamSettings, streamSettings.network ≠ ascii "quic" ∧
      ∀ settings ∈ streamSettings.tlsSettings, settings.allowInsecure = false

/-- A Trojan outbound whose address needs no escaping, and with strings that JSON keeps. -/
def TrojanLinkable (ob : OutboundConfig) : Prop :=
  ∀ server ∈ trojanServers ob, 37 ∉ server.address ∧ server.address.head? ≠ some 91 ∧
    valid server.address = true ∧ valid server.flow = true

instance (ob : OutboundConfig) : Decidable (TrojanPlain ob) := by
  unfold TrojanPlain
  infer_instance

instance (ob : OutboundConfig) : Decidable (TrojanLinkable ob) := by
  unfold TrojanLinkable
  infer_instance

section RoundTrip

variable {u u' : Url.URL} {port port' : UInt16} {streamSettings streamSettings' : StreamSettings}

def trojanServer (u : Url.URL) (port : UInt16) : TrojanServer :=
  { address := coerce u.hostname
    port := port
    password := coerce u.username
    flow := coerce (param u.query "flow") }

theorem buildTrojanURI_trojanOutbound : buildTrojanURI (trojanOutbound u port streamSettings)
    = .ok (withRemark (parseRemark u.fragment)
        (withQuery (trojanQuery (trojanServer u port) streamSettings)
          (authorityURI "trojan" (coerce u.username) (coerce u.hostname) port))) := rfl

theorem isRawUserinfoByte_of_isUnreserved {c : UInt8} (hc : isUnreserved c = true) :
    Url.isRawUserinfoByte c = true ∧ isAscii c = true := by
  rw [isUnreserved, Bool.or_eq_true, decide_eq_true_eq] at hc
  have huser : Url.isUserinfoByte c = true := by
    rw [Url.isUserinfoByte, Bool.or_eq_true, decide_eq_true_eq]
    refine hc.imp_right fun hmark => ?_
    have hmarks : ascii "-._~" ⊆ ascii "-._:~!$&'()*+,;=%@" := by decide
    exact hmarks hmark
  have hne : c ≠ 58 ∧ c ≠ 37 := by
    obtain halphanumeric | hmark := hc
    · simp only [isAlphanumeric, isLetter, isDigit, Bool.or_eq_true, Bool.and_eq_true, decide_eq_true_eq]
        at halphanumeric
      grind
    · have hmarks : ascii "-._~" = [45, 46, 95, 126] := rfl
      rw [hmarks] at hmark
      grind
  refine ⟨?_, Url.isAscii_of_isUserinfoByte huser⟩
  rw [Url.isRawUserinfoByte, huser, decide_eq_true hne.1, decide_eq_true hne.2]
  rfl

theorem trojanOutbound_eq_iff :
    trojanOutbound u' port' streamSettings' = trojanOutbound u port streamSettings ↔
      u'.username = u.username ∧ u'.hostname = u.hostname ∧ port' = port ∧
      param u'.query "flow" = param u.query "flow" ∧
      parseRemark u'.fragment = parseRemark u.fragment ∧ streamSettings' = streamSettings := by
  simp only [trojanOutbound, OutboundConfig.mk.injEq, Settings.trojan.injEq,
    TrojanSettings.mk.injEq, List.cons.injEq, TrojanServer.mk.injEq, Option.some.injEq, and_true,
    true_and]
  tauto

theorem expressible_of_plain (hstream : trojanStreamSettings (param u.query) = .ok streamSettings)
    (hplain : TrojanPlain (trojanOutbound u port streamSettings)) : streamSettings.Expressible := by
  obtain ⟨hquic, htls⟩ := hplain.2.2 streamSettings rfl
  obtain ⟨-, -, -, heq⟩ := parseStreamSettings_eq_ok hstream
  refine (expressible_iff heq).mpr ⟨fun h => absurd h hquic, ?_⟩
  intro hsecured
  have hsettings : streamSettings.tlsSettings = some (tlsSettings (param u.query)) := by
    obtain ⟨-, hsecurity, -⟩ := transportSettings_base (fun path => path.splitOn 44) (param u.query) {
      network := streamSettings.network, security := streamSettings.security }
    rw [heq, securitySettings, hsecurity]
    exact if_pos hsecured
  exact of_decide_eq_false (htls _ hsettings)

/-- **Round trip of Trojan links.** An outbound of a link, in the range where links are plain, is
parsed again from the link it is exported to exactly if its address and flow are kept as they are. -/
theorem trojan_roundTrip_iff {rawURL : Bytes} {args : ParseArgs} {ob : OutboundConfig}
    (himage : headOutbound (parseTrojan rawURL args) = some ob) (hplain : TrojanPlain ob)
    (args' : ParseArgs) :
    (∃ uri, buildTrojanURI ob = .ok uri ∧ headOutbound (parseTrojan uri args') = some ob) ↔
      TrojanLinkable ob := by
  obtain ⟨config, hparse, hhead⟩ := exists_of_headOutbound himage
  obtain ⟨u, port, streamSettings, hu, hport, hstream, houtbounds⟩ := parseTrojan_eq_ok hparse
  rw [houtbounds] at hhead
  obtain rfl := Option.some.inj hhead
  obtain ⟨-, -, hpassword⟩ := hplain.1 _ List.mem_cons_self
  have hremark : 37 ∉ parseRemark u.fragment := hplain.2.1
  have hexpressible := expressible_of_plain hstream hplain
  have huser : coerce u.username = u.username := coerce_of_valid
    (valid_of_isAscii fun c hc => (isRawUserinfoByte_of_isUnreserved (hpassword c hc)).2)
  have hraw : ∀ c ∈ coerce u.username, Url.isRawUserinfoByte c = true := by
    rw [huser]
    exact fun c hc => (isRawUserinfoByte_of_isUnreserved (hpassword c hc)).1
  have hparam : ∀ credential address remark : Bytes, param (linkURL credential address port
      (trojanQuery (trojanServer u port) streamSettings) remark).query
      = param (trojanQuery (trojanServer u port) streamSettings) :=
    fun _ _ _ => funext fun key => param_linkURL (trojanQuery_distinct _ _) key
  have hlink : 37 ∉ coerce u.hostname → (coerce u.hostname).head? ≠ some 91 →
      Url.parse (withRemark (parseRemark u.fragment) (withQuery
        (trojanQuery (trojanServer u port) streamSettings)
        (authorityURI "trojan" (coerce u.username) (coerce u.hostname) port)))
      = .ok (linkURL (coerce u.username) (coerce u.hostname) port
          (trojanQuery (trojanServer u port) streamSettings) (parseRemark u.fragment)) :=
    fun hpercent hopen => parse_linkURL (by decide) (List.all_eq_true.mp (by decide)) hraw
      (Url.isHostByte_of_mem_hostname hu hport hpercent) hpercent hopen port _ _
  have hlinkable : TrojanLinkable (trojanOutbound u port streamSettings) ↔
      37 ∉ u.hostname ∧ u.hostname.head? ≠ some 91 ∧ valid u.hostname = true ∧
        valid (param u.query "flow") = true := by
    simp [TrojanLinkable, trojanServers, trojanOutbound]
  rw [hlinkable]
  constructor
  · rintro ⟨uri, hbuild, hagain⟩
    rw [buildTrojanURI_trojanOutbound] at hbuild
    obtain rfl := Except.ok.inj hbuild
    obtain ⟨config', hparse', hhead'⟩ := exists_of_headOutbound hagain
    obtain ⟨u', port', streamSettings', hu', -, -, houtbounds'⟩ := parseTrojan_eq_ok hparse'
    rw [houtbounds'] at hhead'
    obtain ⟨hsameUser, hsameHost, -, hsameFlow, -⟩ :=
      trojanOutbound_eq_iff.mp (Option.some.inj hhead')
    obtain ⟨-, hpercent, hopen⟩ := Url.plain_of_parse_link (by decide) (List.all_eq_true.mp (by decide))
      (Url.mem_coerce_hostname hu) (formatUint_all_isDigit _)
      (withRemark_withQuery .. ▸ hu') (formatUint_ne_nil _) (congrArg coerce hsameUser) (congrArg coerce hsameHost)
    obtain rfl := Except.ok.inj (hu'.symm.trans (hlink hpercent hopen))
    rw [hostname_linkURL hopen] at hsameHost
    rw [hparam, param_trojanQuery_flow] at hsameFlow
    rw [hsameHost] at hpercent hopen
    exact ⟨hpercent, hopen, coerce_eq_self_iff.mp hsameHost, coerce_eq_self_iff.mp hsameFlow⟩
  · rintro ⟨hpercent, hopen, hvalid, hflow⟩
    have hhost : coerce u.hostname = u.hostname := coerce_of_valid hvalid
    have hopen' : (coerce u.hostname).head? ≠ some 91 := by
      rw [hhost]
      exact hopen
    have hexact := hlink (by rw [hhost]; exact hpercent) hopen'
    obtain ⟨config', hparse', houtbounds'⟩ := @parseTrojan_of_parse _ args' _ _ hexact port_linkURL
      streamSettings
      (by rw [hparam]; exact (trojanStreamSettings_trojanQuery hstream).mpr hexpressible)
    refine ⟨_, buildTrojanURI_trojanOutbound, ?_⟩
    rw [headOutbound_of_outbounds hparse' houtbounds']
    refine congrArg some (trojanOutbound_eq_iff.mpr ⟨huser, ?_, rfl, ?_, ?_, rfl⟩)
    · rw [hostname_linkURL hopen', hhost]
    · rw [hparam, param_trojanQuery_flow]
      exact coerce_of_valid hflow
    · exact parseRemark_eq_self_iff.mpr hremark

theorem trojan_roundTrip_grpc :
    ∃ ob uri, headOutbound (parseTrojan (ascii "trojan://pw@h:443?type=grpc&alpn=h2%2Cx#r")
        defaultArgs) = some ob ∧
      buildTrojanURI ob = .ok uri ∧ headOutbound (parseTrojan uri defaultArgs) = some ob := by
  have hexists : ∃ ob ∈ headOutbound (parseTrojan
      (ascii "trojan://pw@h:443?type=grpc&alpn=h2%2Cx#r") defaultArgs),
      TrojanPlain ob ∧ TrojanLinkable ob := by
    decide +kernel
  obtain ⟨ob, hob, hplain, hlinkable⟩ := hexists
  obtain ⟨uri, hbuild, hagain⟩ := (trojan_roundTrip_iff hob hplain defaultArgs).mpr hlinkable
  exact ⟨ob, uri, hob, hbuild, hagain⟩

/-- A percent sign in the address makes the exported link no link at all. -/
theorem trojan_percent_rejected :
    (∀ ob ∈ headOutbound (parseTrojan (ascii "trojan://pw@a%25b:443") defaultArgs),
      TrojanPlain ob ∧
        (buildTrojanURI ob).toOption = some (ascii "trojan://pw@a%b:443?security=tls")) ∧
    (headOutbound (parseTrojan (ascii "trojan://pw@a%25b:443") defaultArgs)).isSome = true ∧
    (parseTrojan (ascii "trojan://pw@a%b:443?security=tls") defaultArgs).isOk = false := by
  decide +kernel

end RoundTrip

end V2RootCore.ShareLink
