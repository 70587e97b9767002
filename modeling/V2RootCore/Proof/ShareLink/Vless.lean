import Mathlib
import V2RootCore.Proof.ShareLink.Link

/-!
# Round trips of VLESS links

The outbound of a VLESS link is exported and parsed again. Names that would need escaping, the header
of QUIC and unchecked certificates are lost on the way; everything else comes back.
-/

namespace V2RootCore.ShareLink

open Go Utf8

/-! ### Parsing -/

theorem parseVless_eq_ok {rawURL : Bytes} {args : ParseArgs} {config : OutputConfig}
    (h : parseVless rawURL args = .ok config) :
    ∃ u port, Url.parse rawURL = .ok u ∧ u.port ≠ [] ∧
      (config.outbounds = [] ∧ u.username = [] ∨
        ∃ streamSettings, vlessStreamSettings (param u.query) = .ok streamSettings ∧
          config.outbounds
            = withDefaultOutbounds (vlessOutbound u port (ascii "none") streamSettings) ∧
          u.username ≠ []) := by
  obtain ⟨u, hu, h⟩ := bind_eq_ok.mp h
  obtain ⟨port, hport, h⟩ := bind_eq_ok.mp h
  refine ⟨u, port, parseURL_eq_ok.mp hu, parsePort_eq_ok hport, ?_⟩
  simp only at h
  split at h
  · cases h
  · rename_i hencryption
    rw [not_not] at hencryption
    split at h
    · rename_i hname
      exact Or.inl ⟨by rw [← Except.ok.inj h]; rfl, hname⟩
    · rename_i hname
      obtain ⟨streamSettings, hstream, h⟩ := bind_eq_ok.mp h
      rw [hencryption] at h
      exact Or.inr ⟨streamSettings, hstream, by rw [← Except.ok.inj h]; rfl, hname⟩

theorem parseVless_of_parse {rawURL : Bytes} {args : ParseArgs} {u : Url.URL} {port : UInt16}
    (hparse : Url.parse rawURL = .ok u) (hport : parseUint u.port 16 = some port.toNat)
    (hencryption : orDefault (param u.query "encryption") (ascii "none") = ascii "none")
    (hname : u.username ≠ []) {streamSettings : StreamSettings}
    (hstream : vlessStreamSettings (param u.query) = .ok streamSettings) :
    ∃ config, parseVless rawURL args = .ok config ∧ config.outbounds
      = withDefaultOutbounds (vlessOutbound u port (ascii "none") streamSettings) := by
  refine ⟨args.output (createDefaultInbounds args.httpPort args.socksPort) (withDefaultOutbounds
    (vlessOutbound u port (ascii "none") streamSettings)), ?_, rfl⟩
  rw [parseVless, parseURL_eq_ok.mpr hparse]
  simp only [bind, Except.bind, parsePort_of_parseUint hport, hencryption, ne_eq, not_true_eq_false,
    if_false, if_neg hname, hstream]

/-! ### The parameters of a VLESS link -/

def vlessBase (user : VlessUser) (streamSettings : StreamSettings) : Url.Values :=
  setUnless (setUnless (setNonempty (setUnless [] "encryption" user.encryption (ascii "none"))
    "flow" user.flow) "type" streamSettings.network (ascii "tcp"))
    "security" streamSettings.security (ascii "none")

section Query

variable {user : VlessUser} {streamSettings : StreamSettings} {get : String → Bytes}

theorem vlessBase_setsOnly (user : VlessUser) (streamSettings : StreamSettings) :
    (∀ key, ascii key ∉ names ["encryption", "flow", "type", "security"] →
      param (vlessBase user streamSettings) key = []) ∧
      (vlessBase user streamSettings).Distinct := by
  have h : SetsOnly ["encryption", "flow", "type", "security"] _ :=
    (SetsOnly.setUnless "security" streamSettings.security (ascii "none")).comp
      ((SetsOnly.setUnless "type" streamSettings.network (ascii "tcp")).comp
        ((SetsOnly.setNonempty "flow" user.flow).comp
          (SetsOnly.setUnless "encryption" user.encryption (ascii "none"))))
  exact ⟨fun key hkey => h.param_eq [] key hkey, h.distinct [] Map.distinct_nil⟩

variable (hparse : vlessStreamSettings get = .ok streamSettings)

include hparse

theorem vlessQuery_eq :
    vlessQuery user streamSettings
      = setSecurity streamSettings (setTransports streamSettings (vlessBase user streamSettings)) := by
  obtain ⟨-, -, -, heq⟩ := parseStreamSettings_eq_ok hparse
  exact congrArg (setSecurity streamSettings)
    (setTransports_eq heq (vlessBase user streamSettings))

theorem vlessQuery_distinct :
    (vlessQuery user streamSettings).Distinct := by
  rw [vlessQuery_eq hparse]
  exact (SetsOnly.setSecurity streamSettings).distinct _
    ((SetsOnly.setTransports streamSettings).distinct _ (vlessBase_setsOnly user streamSettings).2)

theorem param_vlessQuery {key : String}
    (hkey : ascii key ∉ names (transportKeys ++ securityKeys)) :
    param (vlessQuery user streamSettings) key = param (vlessBase user streamSettings) key := by
  have h : SetsOnly (transportKeys ++ securityKeys) _ :=
    (SetsOnly.setSecurity streamSettings).comp (SetsOnly.setTransports streamSettings)
  rw [vlessQuery_eq hparse]
  exact h.param_eq _ key hkey

theorem param_vlessQuery_flow :
    param (vlessQuery user streamSettings) "flow" = user.flow := by
  rw [param_vlessQuery hparse (by decide), vlessBase,
    (SetsOnly.setUnless "security" _ _).param_eq _ "flow" (by decide),
    (SetsOnly.setUnless "type" _ _).param_eq _ "flow" (by decide), param_setNonempty_self]
  exact (SetsOnly.setUnless "encryption" _ _).param_eq [] "flow" (by decide)

theorem param_vlessQuery_encryption (huser : user.encryption = ascii "none") :
    param (vlessQuery user streamSettings) "encryption" = [] := by
  rw [param_vlessQuery hparse (by decide), vlessBase,
    (SetsOnly.setUnless "security" _ _).param_eq _ "encryption" (by decide),
    (SetsOnly.setUnless "type" _ _).param_eq _ "encryption" (by decide),
    (SetsOnly.setNonempty "flow" _).param_eq _ "encryption" (by decide), setUnless, if_pos huser]
  rfl

/-- **The stream settings of a VLESS link** are read back exactly if a link can hold them. -/
theorem vlessStreamSettings_vlessQuery :
    vlessStreamSettings (param (vlessQuery user streamSettings)) = .ok streamSettings ↔
      streamSettings.Expressible := by
  obtain ⟨-, hsecurity, hnetwork, -⟩ := parseStreamSettings_eq_ok hparse
  obtain ⟨hbase, -⟩ := vlessBase_setsOnly user streamSettings
  have hsecurity' : orDefault (param (vlessQuery user streamSettings) "security") (ascii "none")
      = streamSettings.security := by
    rw [param_vlessQuery hparse (by decide), vlessBase]
    refine orDefault_setUnless ?_ (by rw [hsecurity]; exact orDefault_ne_nil (by decide))
    rw [(SetsOnly.setUnless "type" _ _).param_eq _ "security" (by decide),
      (SetsOnly.setNonempty "flow" _).param_eq _ "security" (by decide)]
    exact (SetsOnly.setUnless "encryption" _ _).param_eq [] "security" (by decide)
  have hnetwork' : orDefault (param (vlessQuery user streamSettings) "type") (ascii "tcp")
      = streamSettings.network := by
    rw [param_vlessQuery hparse (by decide), vlessBase,
      (SetsOnly.setUnless "security" _ _).param_eq _ "type" (by decide)]
    refine orDefault_setUnless ?_ (by rw [hnetwork]; exact orDefault_ne_nil (by decide))
    rw [(SetsOnly.setNonempty "flow" _).param_eq _ "type" (by decide)]
    exact (SetsOnly.setUnless "encryption" _ _).param_eq [] "type" (by decide)
  refine parseStreamSettings_set splits_splitList hparse (.inr (vlessQuery_eq hparse))
    (fun key hkey => hbase key ?_) hsecurity' hnetwork'
  revert key
  decide

end Query

/-! ### The round trip -/

/-- A VLESS outbound whose link stands for it: user id and address need no escaping, the remark
survives being unescaped twice, and the link can hold the stream settings. -/
def VlessLinkable (ob : OutboundConfig) : Prop :=
  (∀ vnext ∈ ob.settings.readVless.vnext,
    (∀ user ∈ vnext.users, ∀ c ∈ user.id, Url.isRawUserinfoByte c = true) ∧
      37 ∉ vnext.address ∧ vnext.address.head? ≠ some 91) ∧
    37 ∉ ob.remark ∧ ∀ streamSettings ∈ ob.streamSettings, streamSettings.Expressible

instance (ob : OutboundConfig) : Decidable (VlessLinkable ob) := by
  unfold VlessLinkable
  infer_instance

section RoundTrip

variable {u u' : Url.URL} {port port' : UInt16} {streamSettings streamSettings' : StreamSettings}

def vlessUser (u : Url.URL) : VlessUser :=
  { id := coerce u.username
    encryption := ascii "none"
    flow := coerce (param u.query "flow") }

theorem readBack_vlessOutbound :
    (vlessOutbound u port (ascii "none") streamSettings).readBack = {
      tag := ascii "Proxy"
      protocol := ascii "vless"
      remark := parseRemark u.fragment
      settings := .vless {
        vnext := [{ address := coerce u.hostname, port, users := [vlessUser u] }] }
      streamSettings := some streamSettings } := by
  have hnone : coerce (ascii "none") = ascii "none" := by decide
  simp only [OutboundConfig.readBack, vlessOutbound, Settings.readBack, Settings.readVless,
    List.map_cons, List.map_nil, hnone, vlessUser]

theorem readVless_vlessOutbound :
    (vlessOutbound u port (ascii "none") streamSettings).readBack.settings.readVless = {
      vnext := [{ address := coerce u.hostname, port, users := [vlessUser u] }] } := by
  have hnone : coerce (ascii "none") = ascii "none" := by decide
  simp only [readBack_vlessOutbound, Settings.readVless, List.map_cons, List.map_nil, vlessUser,
    coerce_coerce, hnone]

theorem buildVlessURI_vlessOutbound :
    buildVlessURI (vlessOutbound u port (ascii "none") streamSettings).readBack
      = .ok (withRemark (parseRemark u.fragment) (withQuery (vlessQuery (vlessUser u) streamSettings)
          (authorityURI "vless" (coerce u.username) (coerce u.hostname) port))) := by
  rw [buildVlessURI, readVless_vlessOutbound]
  rfl

theorem vlessLinkable_vlessOutbound :
    VlessLinkable (vlessOutbound u port (ascii "none") streamSettings).readBack ↔
      ((∀ c ∈ coerce u.username, Url.isRawUserinfoByte c = true) ∧
        37 ∉ coerce u.hostname ∧ (coerce u.hostname).head? ≠ some 91) ∧
      37 ∉ parseRemark u.fragment ∧ streamSettings.Expressible := by
  rw [VlessLinkable, readVless_vlessOutbound, readBack_vlessOutbound]
  simp [vlessUser]

theorem readBack_vlessOutbound_eq_iff :
    (vlessOutbound u' port' (ascii "none") streamSettings').readBack
        = (vlessOutbound u port (ascii "none") streamSettings).readBack ↔
      coerce u'.username = coerce u.username ∧ coerce u'.hostname = coerce u.hostname ∧
      port' = port ∧ coerce (param u'.query "flow") = coerce (param u.query "flow") ∧
      parseRemark u'.fragment = parseRemark u.fragment ∧ streamSettings' = streamSettings := by
  rw [readBack_vlessOutbound, readBack_vlessOutbound]
  simp only [OutboundConfig.mk.injEq, Settings.vless.injEq, VlessSettings.mk.injEq,
    List.cons.injEq, VlessVnext.mk.injEq, vlessUser, VlessUser.mk.injEq, Option.some.injEq,
    and_true, true_and]
  tauto

theorem param_linkURL_vlessQuery {get : String → Bytes} {user : VlessUser}
    (hstream : vlessStreamSettings get = .ok streamSettings) (credential address remark : Bytes) :
    param (linkURL credential address port (vlessQuery user streamSettings) remark).query
      = param (vlessQuery user streamSettings) :=
  funext fun key => param_linkURL (vlessQuery_distinct hstream) key

/-- **Round trip of VLESS links.** The first outbound of an accepted link with a user name is exported
to a link from which the same outbound is parsed, exactly if the link stands for it. -/
theorem vless_roundTrip_iff {rawURL : Bytes} {args : ParseArgs}
    (haccepted : (parseVless rawURL args).isOk = true) (hname : linkUser rawURL ≠ [])
    (args' : ParseArgs) :
    ∃ ob, firstOutbound (parseVless rawURL args) = some ob ∧
      ((∃ uri, buildVlessURI ob = .ok uri ∧ firstOutbound (parseVless uri args') = some ob) ↔
        VlessLinkable ob) := by
  obtain ⟨config, hparse⟩ := exists_of_isOk haccepted
  obtain ⟨u, port, hu, hport, hcases⟩ := parseVless_eq_ok hparse
  rw [linkUser, hu] at hname
  obtain ⟨-, hnil⟩ | ⟨streamSettings, hstream, houtbounds, -⟩ := hcases
  · exact absurd hnil hname
  refine ⟨(vlessOutbound u port (ascii "none") streamSettings).readBack,
    by rw [firstOutbound, headOutbound_of_outbounds hparse houtbounds]; rfl, ?_⟩
  have hbytes := Url.mem_coerce_hostname hu
  have hlink : (∀ c ∈ coerce u.username, Url.isRawUserinfoByte c = true) →
      37 ∉ coerce u.hostname → (coerce u.hostname).head? ≠ some 91 →
      Url.parse (withRemark (parseRemark u.fragment) (withQuery
        (vlessQuery (vlessUser u) streamSettings)
        (authorityURI "vless" (coerce u.username) (coerce u.hostname) port)))
      = .ok (linkURL (coerce u.username) (coerce u.hostname) port
          (vlessQuery (vlessUser u) streamSettings) (parseRemark u.fragment)) :=
    fun hraw hpercent hopen => parse_linkURL (by decide) (List.all_eq_true.mp (by decide)) hraw
      (Url.isHostByte_of_mem_hostname hu hport hpercent) hpercent hopen port _ _
  rw [vlessLinkable_vlessOutbound]
  constructor
  · rintro ⟨uri, hbuild, hagain⟩
    rw [buildVlessURI_vlessOutbound] at hbuild
    obtain rfl := Except.ok.inj hbuild
    obtain ⟨ob', hob', hsame⟩ := Option.map_eq_some_iff.mp hagain
    obtain ⟨config', hparse', hhead⟩ := exists_of_headOutbound hob'
    obtain ⟨u', port', hu', -, hcases⟩ := parseVless_eq_ok hparse'
    obtain ⟨hnil, -⟩ | ⟨streamSettings', hstream', houtbounds', -⟩ := hcases
    · rw [hnil] at hhead
      cases hhead
    rw [houtbounds'] at hhead
    obtain rfl := Option.some.inj hhead
    obtain ⟨huser, hhost, -, -, hremark, rfl⟩ := readBack_vlessOutbound_eq_iff.mp hsame
    -- the link was parsed into its parts, so it stands for itself, and the parts are known
    obtain ⟨hraw, hpercent, hopen⟩ := Url.plain_of_parse_link (by decide) (List.all_eq_true.mp (by decide)) hbytes
      (formatUint_all_isDigit _) (withRemark_withQuery .. ▸ hu') (formatUint_ne_nil _) huser hhost
    have hexact := hlink hraw hpercent hopen
    obtain rfl := Except.ok.inj (hu'.symm.trans hexact)
    refine ⟨⟨hraw, hpercent, hopen⟩, parseRemark_eq_self_iff.mp hremark, ?_⟩
    rw [param_linkURL_vlessQuery hstream] at hstream'
    exact (vlessStreamSettings_vlessQuery hstream).mp hstream'
  · rintro ⟨⟨hraw, hpercent, hopen⟩, hremark, hexpressible⟩
    have hexact := hlink hraw hpercent hopen
    have hparam := @param_linkURL_vlessQuery port streamSettings _ (vlessUser u) hstream
      (coerce u.username) (coerce u.hostname) (parseRemark u.fragment)
    have hencryption : orDefault (param (vlessQuery (vlessUser u) streamSettings) "encryption")
        (ascii "none") = ascii "none" := by
      rw [param_vlessQuery_encryption hstream rfl]
      rfl
    have hname' : coerce u.username ≠ [] := fun h => hname (coerce_eq_nil_iff.mp h)
    obtain ⟨config', hparse', houtbounds'⟩ := @parseVless_of_parse _ args' _ _ hexact port_linkURL
      (by rw [hparam]; exact hencryption) hname' streamSettings
      (by rw [hparam]; exact (vlessStreamSettings_vlessQuery hstream).mpr hexpressible)
    refine ⟨_, buildVlessURI_vlessOutbound, ?_⟩
    rw [firstOutbound, headOutbound_of_outbounds hparse' houtbounds']
    refine congrArg some (readBack_vlessOutbound_eq_iff.mpr ⟨?_, ?_, rfl, ?_, ?_, rfl⟩)
    · exact coerce_coerce u.username
    · rw [hostname_linkURL hopen, coerce_coerce]
    · rw [hparam, param_vlessQuery_flow hstream]
      exact coerce_coerce _
    · exact parseRemark_eq_self_iff.mpr hremark

theorem vless_roundTrip_ws :
    ∃ ob uri, firstOutbound (parseVless (ascii "vless://id@[::1]:443?type=ws&path=%2Fp#r") defaultArgs)
        = some ob ∧
      buildVlessURI ob = .ok uri ∧ firstOutbound (parseVless uri defaultArgs) = some ob := by
  obtain ⟨ob, hob, hiff⟩ := vless_roundTrip_iff
    (show (parseVless (ascii "vless://id@[::1]:443?type=ws&path=%2Fp#r") defaultArgs).isOk = true by
      decide +kernel) (by decide +kernel) defaultArgs
  have hlinkable : ∀ ob ∈ firstOutbound
      (parseVless (ascii "vless://id@[::1]:443?type=ws&path=%2Fp#r") defaultArgs), VlessLinkable ob := by
    decide +kernel
  obtain ⟨uri, hbuild, hagain⟩ := hiff.mpr (hlinkable ob hob)
  exact ⟨ob, uri, hob, hbuild, hagain⟩

/-- Whether the server's certificate is checked does not survive. -/
theorem vless_allowInsecure_lost :
    (firstOutbound (parseVless (ascii "vless://id@h:443?security=tls&allowInsecure=1")
        defaultArgs)).bind (fun ob => (buildVlessURI ob).toOption)
      = some (ascii "vless://id@h:443?security=tls") ∧
    firstOutbound (parseVless (ascii "vless://id@h:443?security=tls") defaultArgs)
      ≠ firstOutbound (parseVless (ascii "vless://id@h:443?security=tls&allowInsecure=1")
          defaultArgs) := by
  decide +kernel

end RoundTrip

end V2RootCore.ShareLink
