import V2RootCore.Proof.ShareLink.Options
import V2RootCore.Proof.ShareLink.Shadowsocks
import V2RootCore.Proof.ShareLink.Trojan
import V2RootCore.Proof.ShareLink.Vless
import V2RootCore.Proof.ShareLink.Vmess

/-!
# Configurations that can be used

What a caller of `Parse` relies on: the first outbound is the server of the link, complete and of the
link's protocol, and every rule without a tag of its own leads to an outbound that is there. A VLESS
link without a user name is accepted with no outbounds at all.
-/

namespace V2RootCore.ShareLink

open Go Utf8

/-! ### Usable configurations -/

/-- The protocol a link's scheme names. -/
def schemeProtocol (uri : Bytes) : Option Bytes :=
  if hasPrefix uri (ascii "vless://") then some (ascii "vless")
  else if hasPrefix uri (ascii "vmess://") then some (ascii "vmess")
  else if hasPrefix uri (ascii "trojan://") then some (ascii "trojan")
  else if hasPrefix uri (ascii "ss://") then some (ascii "shadowsocks")
  else none

/-- The settings of a protocol hold a server with an address, a port and a credential. -/
inductive HasServer : Bytes → Settings → Prop where
  | vless {vnext : VlessVnext} {user : VlessUser} {users : List VlessUser} {rest : List VlessVnext} :
      vnext.users = user :: users → vnext.address ≠ [] → vnext.port ≠ 0 → user.id ≠ [] →
      HasServer (ascii "vless") (.vless { vnext := vnext :: rest })
  | vmess {vnext : VmessVnext} {user : VmessUser} {users : List VmessUser} {rest : List VmessVnext} :
      vnext.users = user :: users → vnext.address ≠ [] → vnext.port ≠ 0 → user.id ≠ [] →
      HasServer (ascii "vmess") (.vmess { vnext := vnext :: rest })
  | trojan {server : TrojanServer} {rest : List TrojanServer} :
      server.address ≠ [] → server.port ≠ 0 → server.password ≠ [] →
      HasServer (ascii "trojan") (.trojan { servers := server :: rest })
  | shadowsocks {server : ShadowsocksServer} {rest : List ShadowsocksServer} :
      server.address ≠ [] → server.port ≠ 0 → server.method ≠ [] → server.password ≠ [] →
      HasServer (ascii "shadowsocks") (.shadowsocks { servers := server :: rest })

/-- The tags the options ask for, rule by rule: empty where the rule has none of its own, and for the
catch-all rule. -/
def ParseOptions.customTags (opts : ParseOptions) : List Bytes :=
  opts.geositeRules.map GeositeRule.outboundTag ++ opts.geoipRules.map GeoipRule.outboundTag ++ [[]]

structure Usable (opts : ParseOptions) (config : DecodedConfig) : Prop where
  main : ∃ ob rest, config.outbounds = ob :: rest ∧ ob.tag = ascii "Proxy" ∧
    schemeProtocol opts.uri = some ob.protocol ∧ HasServer ob.protocol ob.settings
  rules : List.Forall₂ (fun custom rule => custom = [] →
    rule.outboundTag ∈ config.outbounds.map OutboundConfig.tag) opts.customTags config.rules

/-! ### Rules -/

theorem getOutboundTag_mem (action : Bytes) :
    getOutboundTag action [] ∈ [ascii "Proxy", ascii "Direct", ascii "Reject"] := by
  unfold getOutboundTag
  simp only [ne_eq, not_true_eq_false, if_false]
  split
  · simp
  · split
    · simp
    · simp

variable {ob : OutboundConfig}

theorem tags_withDefaultOutbounds (htag : ob.tag = ascii "Proxy") :
    ((withDefaultOutbounds ob).map OutboundConfig.decoded).map OutboundConfig.tag
      = [ascii "Proxy", ascii "Direct", ascii "Reject"] := by
  simp only [withDefaultOutbounds, List.map_cons, List.map_nil, OutboundConfig.decoded, htag]
  decide

theorem rules_lead_to_outbounds (opts : ParseOptions) (fileExists : Bytes → Bool) :
    List.Forall₂ (fun custom rule => custom = [] →
        rule.outboundTag ∈ [ascii "Proxy", ascii "Direct", ascii "Reject"]) opts.customTags
      ((buildRoutingConfig opts.geositeRules opts.geoipRules
        (opts.args fileExists).routingMode).rules.map RoutingRule.decoded) := by
  have htag : ∀ action custom : Bytes, custom = [] →
      coerce (getOutboundTag action custom) ∈ [ascii "Proxy", ascii "Direct", ascii "Reject"] := by
    rintro action custom rfl
    have hmem := getOutboundTag_mem action
    have hvalid : ∀ tag ∈ [ascii "Proxy", ascii "Direct", ascii "Reject"], coerce tag = tag := by
      decide
    rwa [hvalid _ hmem]
  have hmode : (opts.args fileExists).routingMode ≠ [] := orDefault_ne_nil (by decide)
  simp only [buildRoutingConfig, ParseOptions.customTags, if_pos hmode, List.map_append,
    List.map_map, List.map_cons, List.map_nil]
  refine List.rel_append (List.rel_append ?_ ?_) ?_
  · rw [List.forall₂_map_left_iff, List.forall₂_map_right_iff, List.forall₂_same]
    exact fun rule _ => htag rule.action rule.outboundTag
  · rw [List.forall₂_map_left_iff, List.forall₂_map_right_iff, List.forall₂_same]
    exact fun rule _ => htag rule.action rule.outboundTag
  · exact List.Forall₂.cons (htag _ []) List.Forall₂.nil

/-! ### Outbounds of the parsers -/

inductive IsMain : Bytes → OutboundConfig → Prop where
  | vless {ob : OutboundConfig} (settings : VlessSettings) : ob.settings = .vless settings →
      IsMain (ascii "vless") ob
  | vmess {ob : OutboundConfig} (settings : VmessSettings) : ob.settings = .vmess settings →
      IsMain (ascii "vmess") ob
  | trojan {ob : OutboundConfig} (settings : TrojanSettings) : ob.settings = .trojan settings →
      IsMain (ascii "trojan") ob
  | shadowsocks {ob : OutboundConfig} (settings : ShadowsocksSettings) :
      ob.settings = .shadowsocks settings → IsMain (ascii "shadowsocks") ob

theorem IsMain.coerce_protocol {protocol : Bytes} (h : IsMain protocol ob) :
    coerce protocol = protocol := by
  cases h <;> decide

/-- **What validation guarantees.** -/
theorem hasServer_of_validateOutbound {protocol : Bytes} (hmain : IsMain protocol ob)
    (hprotocol : ob.protocol = protocol) (hvalidate : (validateOutbound ob).isOk = true) :
    HasServer ob.decoded.protocol ob.decoded.settings := by
  have hdecoded : ob.decoded.protocol = coerce protocol := congrArg coerce hprotocol
  have hsettings : ob.decoded.settings = ob.settings.readBack := rfl
  rw [hdecoded, hsettings]
  cases hmain with
  | vless settings h =>
      simp only [validateOutbound, if_pos hprotocol] at hvalidate
      split at hvalidate
      · cases hvalidate
      rename_i vnext rest hvnext
      split at hvalidate
      · cases hvalidate
      rename_i user users husers
      obtain ⟨haddress, hport, hid⟩ := validateServer_isOk.mp hvalidate
      rw [h] at hvnext ⊢
      have hback : Settings.readBack (.vless settings) = .vless { vnext := vnext :: rest } :=
        congrArg (fun vnext => Settings.vless { vnext }) hvnext
      rw [hback]
      exact .vless husers haddress hport (of_decide_eq_true hid)
  | vmess settings h =>
      have hvless : ob.protocol ≠ ascii "vless" := by rw [hprotocol]; decide
      have htrojan : ob.protocol ≠ ascii "trojan" := by rw [hprotocol]; decide
      simp only [validateOutbound, if_neg hvless, if_neg htrojan, if_pos hprotocol] at hvalidate
      split at hvalidate
      · cases hvalidate
      rename_i vnext rest hvnext
      split at hvalidate
      · cases hvalidate
      rename_i user users husers
      obtain ⟨haddress, hport, hid⟩ := validateServer_isOk.mp hvalidate
      rw [h] at hvnext ⊢
      have hback : Settings.readBack (.vmess settings) = .vmess { vnext := vnext :: rest } :=
        congrArg (fun vnext => Settings.vmess { vnext }) hvnext
      rw [hback]
      exact .vmess husers haddress hport (of_decide_eq_true hid)
  | trojan settings h =>
      have hvless : ob.protocol ≠ ascii "vless" := by rw [hprotocol]; decide
      simp only [validateOutbound, if_neg hvless, if_pos hprotocol] at hvalidate
      split at hvalidate
      · cases hvalidate
      rename_i server rest hservers
      obtain ⟨haddress, hport, hpassword⟩ := validateServer_isOk.mp hvalidate
      rw [h] at hservers ⊢
      have hback : Settings.readBack (.trojan settings) = .trojan { servers := server :: rest } :=
        congrArg (fun servers => Settings.trojan { servers }) hservers
      rw [hback]
      exact .trojan haddress hport (of_decide_eq_true hpassword)
  | shadowsocks settings h =>
      have hvless : ob.protocol ≠ ascii "vless" := by rw [hprotocol]; decide
      have htrojan : ob.protocol ≠ ascii "trojan" := by rw [hprotocol]; decide
      have hvmess : ob.protocol ≠ ascii "vmess" := by rw [hprotocol]; decide
      simp only [validateOutbound, if_neg hvless, if_neg htrojan, if_neg hvmess, if_pos hprotocol]
        at hvalidate
      split at hvalidate
      · cases hvalidate
      rename_i server rest hservers
      obtain ⟨haddress, hport, hcredential⟩ := validateServer_isOk.mp hvalidate
      rw [Bool.and_eq_true, decide_eq_true_eq, decide_eq_true_eq] at hcredential
      rw [h] at hservers ⊢
      have hback : Settings.readBack (.shadowsocks settings)
          = .shadowsocks { servers := server :: rest } :=
        congrArg (fun servers => Settings.shadowsocks { servers }) hservers
      rw [hback]
      exact .shadowsocks haddress hport hcredential.1 hcredential.2

/-- A link that is accepted without any outbounds. -/
def NoUser (uri : Bytes) : Prop := hasPrefix uri (ascii "vless://") = true ∧ linkUser uri = []

instance (uri : Bytes) : Decidable (NoUser uri) := by
  unfold NoUser
  infer_instance

/-- **The outbounds of a parsed link**: those of a server, and none if a VLESS link has no user. -/
theorem outbounds_of_parseLink {unmarshal : Bytes → Option (Map Json)} {uri : Bytes} {args : ParseArgs}
    {config : OutputConfig} (h : parseLink unmarshal uri args = some config) :
    (NoUser uri ∧ config.outbounds = []) ∨
      (¬ NoUser uri ∧ ∃ ob protocol, config.outbounds = withDefaultOutbounds ob ∧
        ob.tag = ascii "Proxy" ∧ ob.protocol = protocol ∧ schemeProtocol uri = some protocol ∧
        IsMain protocol ob) := by
  have huser : ∀ {u : Url.URL}, Url.parse uri = .ok u → linkUser uri = u.username := by
    intro u hu
    rw [linkUser, hu]
    rfl
  unfold parseLink at h
  unfold NoUser schemeProtocol
  split at h
  · rename_i hvless
    rw [if_pos hvless]
    obtain ⟨u, port, hu, -, ⟨hnil, hname⟩ | ⟨streamSettings, -, houtbounds, hname⟩⟩ :=
      parseVless_eq_ok (toOption_eq_some.mp h)
    · exact Or.inl ⟨⟨hvless, (huser hu).trans hname⟩, hnil⟩
    · refine Or.inr ⟨fun hnone => hname ((huser hu).symm.trans hnone.2), ?_⟩
      exact ⟨_, _, houtbounds, rfl, rfl, rfl, .vless _ rfl⟩
  rename_i hvless
  refine Or.inr ⟨fun hnone => hvless hnone.1, ?_⟩
  rw [if_neg hvless]
  split at h
  · rename_i hvmess
    obtain ⟨get, vnext, -, houtbounds⟩ := parseVmess_eq_ok (toOption_eq_some.mp h)
    rw [if_pos hvmess]
    exact ⟨_, _, houtbounds, rfl, rfl, rfl, .vmess _ rfl⟩
  rename_i hvmess
  rw [if_neg hvmess]
  split at h
  · rename_i htrojan
    obtain ⟨u, port, streamSettings, -, -, -, houtbounds⟩ :=
      parseTrojan_eq_ok (toOption_eq_some.mp h)
    rw [if_pos htrojan]
    exact ⟨_, _, houtbounds, rfl, rfl, rfl, .trojan _ rfl⟩
  rename_i htrojan
  rw [if_neg htrojan]
  split at h
  · rename_i hss
    obtain ⟨u, method, password, streamSettings, -, houtbounds⟩ :=
      parseShadowsocks_eq_ok (toOption_eq_some.mp h)
    rw [if_pos hss]
    exact ⟨_, _, houtbounds, rfl, rfl, rfl, .shadowsocks _ rfl⟩
  · cases h

/-- **A configuration can be used, unless it is that of a VLESS link without a user name.** -/
theorem usable_iff {unmarshal : Bytes → Option (Map Json)} {fileExists : Bytes → Bool} {opts : ParseOptions}
    {config : OutputConfig} (h : parse unmarshal fileExists opts = some config) :
    Usable opts config.decoded ↔ ¬ NoUser opts.uri := by
  obtain ⟨hlink, hvalid⟩ := Option.filter_eq_some_iff.mp h
  have hrules : config.decoded.rules = (buildRoutingConfig opts.geositeRules opts.geoipRules
      (opts.args fileExists).routingMode).rules.map RoutingRule.decoded :=
    congrArg (fun routing : RoutingConfig => routing.rules.map RoutingRule.decoded)
      (routing_of_parseLink hlink)
  obtain ⟨hnone, hnil⟩ | ⟨hsome, ob, protocol, houtbounds, htag, hprotocol, hscheme, hmain⟩ :=
    outbounds_of_parseLink hlink
  · refine iff_of_false (fun husable => ?_) (not_not.mpr hnone)
    obtain ⟨ob, rest, hcons, -⟩ := husable.main
    have hdecoded : config.decoded.outbounds = [] := congrArg (List.map OutboundConfig.decoded) hnil
    rw [hdecoded] at hcons
    cases hcons
  · refine iff_of_true ?_ hsome
    have hdecoded : config.decoded.outbounds
        = (withDefaultOutbounds ob).map OutboundConfig.decoded :=
      congrArg (List.map OutboundConfig.decoded) houtbounds
    have hob : (validateOutbound ob).isOk = true := by
      rw [houtbounds] at hvalid
      exact List.all_eq_true.mp hvalid ob List.mem_cons_self
    constructor
    · refine ⟨ob.decoded, _, hdecoded, ?_, ?_, hasServer_of_validateOutbound hmain hprotocol hob⟩
      · show coerce ob.tag = ascii "Proxy"
        rw [htag]
        decide
      · show schemeProtocol opts.uri = some (coerce ob.protocol)
        rw [hprotocol, hmain.coerce_protocol, hscheme]
    · rw [hdecoded, tags_withDefaultOutbounds htag, hrules]
      exact rules_lead_to_outbounds opts fileExists

theorem usable_trojan :
    let opts : ParseOptions :=
      { uri := ascii "trojan://pw@h:443"
        geoipRules := [{ country := ascii "ir", action := ascii "Direct" }] }
    ∃ config, parse (fun _ => none) (fun _ => false) opts = some config ∧
      Usable opts config.decoded := by
  intro opts
  have hsome : (parse (fun _ => none) (fun _ => false) opts).isSome = true := by
    decide +kernel
  obtain ⟨config, hconfig⟩ := Option.isSome_iff_exists.mp hsome
  exact ⟨config, hconfig, (usable_iff hconfig).mpr (by decide +kernel)⟩

/-- Without a user name there is no outbound, and validation has nothing to look at. -/
theorem vless_noUser_accepted :
    let opts : ParseOptions := { uri := ascii "vless://h:443" }
    ∃ config, parse (fun _ => none) (fun _ => false) opts = some config ∧
      config.decoded.outbounds = [] ∧ ¬ Usable opts config.decoded := by
  intro opts
  have houtbounds : (parse (fun _ => none) (fun _ => false) opts).map
      (fun config => config.decoded.outbounds) = some [] := by
    decide +kernel
  obtain ⟨config, hconfig, hnil⟩ := Option.map_eq_some_iff.mp houtbounds
  refine ⟨config, hconfig, hnil, fun husable => ?_⟩
  obtain ⟨ob, rest, hcons, -⟩ := husable.main
  rw [hnil] at hcons
  cases hcons

end V2RootCore.ShareLink
