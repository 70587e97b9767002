import V2RootCore.Proof.ShareLink.Link
import V2RootCore.ShareLink.Options

/-!
# The entry points agree on some options only

What a parser makes of a link does not depend on the options, which add inbounds, DNS and rules to it. `Parse`
and the entry points of the protocols differ in what they add for an empty routing mode and in the outbounds
they let pass, and all of them cut a port to 16 bits.
-/

namespace V2RootCore.ShareLink

open Go

/-! ### Links and options -/

/-- The outbounds are those of the link, whatever the arguments are. -/
def Separates (inbounds : UInt16 → UInt16 → List InboundConfig)
    (parser : ParseArgs → Except Error OutputConfig) : Prop :=
  ∃ link : Except Error (List OutboundConfig), ∀ args,
    parser args = link.map (args.output (inbounds args.httpPort args.socksPort))

namespace Separates

variable {inbounds : UInt16 → UInt16 → List InboundConfig} {α : Type}

theorem error (error : Error) : Separates inbounds fun _ => .error error :=
  ⟨.error error, fun _ => rfl⟩

theorem output (outbounds : List OutboundConfig) :
    Separates inbounds fun args => .ok (args.output (inbounds args.httpPort args.socksPort) outbounds) :=
  ⟨.ok outbounds, fun _ => rfl⟩

theorem bind {x : Except Error α} {f : α → ParseArgs → Except Error OutputConfig}
    (h : ∀ a, Separates inbounds (f a)) : Separates inbounds fun args => x >>= fun a => f a args := by
  cases x with
  | error err => exact error err
  | ok a => exact h a

theorem ite {c : Prop} [Decidable c] {f g : ParseArgs → Except Error OutputConfig}
    (hf : Separates inbounds f) (hg : Separates inbounds g) :
    Separates inbounds fun args => if c then f args else g args := by
  by_cases h : c
  · simpa only [if_pos h] using hf
  · simpa only [if_neg h] using hg

theorem parseVless (rawURL : Bytes) : Separates createDefaultInbounds (parseVless rawURL) :=
  bind fun _ => bind fun _ => ite (error _) (ite (output _) (bind fun _ => output _))

theorem parseTrojan (rawURL : Bytes) : Separates createDefaultInbounds (parseTrojan rawURL) :=
  bind fun _ => bind fun _ => bind fun _ => output _

theorem parseVmess (unmarshal : Bytes → Option (Map Json)) (rawURL : Bytes) :
    Separates createDefaultInbounds (parseVmess unmarshal rawURL) := by
  refine ite (error _) ?_
  cases hdata : Base64.stdEncoding.decode (trimPrefix rawURL (ascii "vmess://")) with
  | none => exact error _
  | some jsonData =>
      dsimp only
      cases hobject : unmarshal jsonData with
      | none => exact error _
      | some data => exact bind fun _ => output _

theorem parseShadowsocks (rawURL : Bytes) :
    Separates shadowsocksInbounds (parseShadowsocks rawURL) := by
  refine ite (bind fun _ => bind fun _ => ite (error _) (output _)) (bind fun _ => bind fun encodedPart => ?_)
  cases hdecoded : decodeAuth encodedPart with
  | none => exact error _
  | some decoded =>
      dsimp only
      cases hsplit : splitTwo 58 decoded with
      | none => exact error _
      | some auth => exact output _

theorem toOption {parser : ParseArgs → Except Error OutputConfig} (h : Separates inbounds parser) :
    ∃ link : Option (List OutboundConfig), ∀ args,
      (parser args).toOption = link.map (args.output (inbounds args.httpPort args.socksPort)) := by
  obtain ⟨link, hlink⟩ := h
  refine ⟨link.toOption, fun args => ?_⟩
  rw [hlink]
  cases link <;> rfl

end Separates

/-- The inbounds that a configuration may have. -/
def IsInbounds (inbounds : UInt16 → UInt16 → List InboundConfig) : Prop :=
  inbounds = createDefaultInbounds ∨ inbounds = shadowsocksInbounds

/-- **What a link says does not depend on the arguments.** -/
theorem exists_parseLink_eq (unmarshal : Bytes → Option (Map Json)) (uri : Bytes) :
    ∃ (link : Option (List OutboundConfig)) (inbounds : UInt16 → UInt16 → List InboundConfig),
      IsInbounds inbounds ∧ ∀ args, parseLink unmarshal uri args =
        link.map (args.output (inbounds args.httpPort args.socksPort)) := by
  unfold parseLink
  split
  · obtain ⟨link, hlink⟩ := (Separates.parseVless uri).toOption
    exact ⟨link, _, .inl rfl, hlink⟩
  split
  · obtain ⟨link, hlink⟩ := (Separates.parseVmess unmarshal uri).toOption
    exact ⟨link, _, .inl rfl, hlink⟩
  split
  · obtain ⟨link, hlink⟩ := (Separates.parseTrojan uri).toOption
    exact ⟨link, _, .inl rfl, hlink⟩
  split
  · obtain ⟨link, hlink⟩ := (Separates.parseShadowsocks uri).toOption
    exact ⟨link, _, .inr rfl, hlink⟩
  · exact ⟨none, _, .inl rfl, fun _ => rfl⟩

theorem routing_of_parseLink {unmarshal : Bytes → Option (Map Json)} {uri : Bytes} {args : ParseArgs}
    {config : OutputConfig} (h : parseLink unmarshal uri args = some config) :
    config.routing = buildRoutingConfig args.geositeRules args.geoipRules args.routingMode := by
  obtain ⟨link, inbounds, -, hlink⟩ := exists_parseLink_eq unmarshal uri
  rw [hlink] at h
  obtain ⟨outbounds, -, rfl⟩ := Option.map_eq_some_iff.mp h
  rfl

theorem hasPrefix_text (scheme other : Scheme) (rest : Bytes) :
    hasPrefix (scheme.text ++ rest) other.text = decide (scheme = other) := by
  cases scheme <;> cases other <;> rfl

variable {opts : ParseOptions}

theorem entry_eq_parseLink (unmarshal : Bytes → Option (Map Json)) (fileExists : Bytes → Bool)
    {scheme : Scheme} {rest : Bytes} (huri : opts.uri = scheme.text ++ rest) :
    scheme.entry unmarshal fileExists opts = parseLink unmarshal opts.uri (opts.rawArgs fileExists) := by
  have hvless : hasPrefix opts.uri (ascii "vless://") = decide (scheme = .vless) :=
    huri ▸ hasPrefix_text scheme .vless rest
  have hvmess : hasPrefix opts.uri (ascii "vmess://") = decide (scheme = .vmess) :=
    huri ▸ hasPrefix_text scheme .vmess rest
  have htrojan : hasPrefix opts.uri (ascii "trojan://") = decide (scheme = .trojan) :=
    huri ▸ hasPrefix_text scheme .trojan rest
  have hss : hasPrefix opts.uri (ascii "ss://") = decide (scheme = .ss) :=
    huri ▸ hasPrefix_text scheme .ss rest
  rw [parseLink, hvless, hvmess, htrojan, hss]
  cases scheme <;> rfl

/-! ### Agreement -/

/-- The port that an option asks for. -/
def askedPort (port default : Int) : Int := if 0 < port then port else default

/-- The inbounds listen at the ports of the options. -/
def Listens (opts : ParseOptions) (config : OutputConfig) : Prop :=
  ∃ http socks, config.inbounds = [http, socks] ∧ http.protocol = ascii "http" ∧
    socks.protocol = ascii "socks" ∧ (http.port.toNat : Int) = askedPort opts.httpPort 10809 ∧
    (socks.port.toNat : Int) = askedPort opts.socksPort 10808

/-- The configurations are decoded to the same; inbounds and DNS have only constants and what was decoded with
the options. -/
def SameDecoded (config config' : OutputConfig) : Prop :=
  config.inbounds = config'.inbounds ∧ config.dns = config'.dns ∧
    config.routing.domainStrategy = config'.routing.domainStrategy ∧ config.decoded = config'.decoded

/-- What the two entry points of a link return goes together. -/
structure Agree (unmarshal : Bytes → Option (Map Json)) (fileExists : Bytes → Bool) (scheme : Scheme)
    (opts : ParseOptions) : Prop where
  accepted : (scheme.entry unmarshal fileExists opts).isSome = (parse unmarshal fileExists opts).isSome
  decoded : ∀ config config', scheme.entry unmarshal fileExists opts = some config →
    parse unmarshal fileExists opts = some config' → SameDecoded config config'
  listens : ∀ config, scheme.entry unmarshal fileExists opts = some config ∨
    parse unmarshal fileExists opts = some config → Listens opts config

theorem toNat_portOr {port : Int} {default : UInt16} :
    ((portOr port default).toNat : Int) = askedPort port default.toNat ↔ port < 65536 := by
  unfold portOr askedPort
  split
  · next hpos =>
      obtain ⟨n, rfl⟩ := Int.eq_ofNat_of_zero_le hpos.le
      have hmod : (Int.toNat n).toUInt16.toNat = n % 65536 := UInt16.toNat_ofNat'
      omega
  · have hsmall := default.toNat_lt
    exact iff_of_true rfl (by omega)

theorem listens_iff {inbounds : UInt16 → UInt16 → List InboundConfig}
    (hinbounds : IsInbounds inbounds) {config : OutputConfig}
    (h : config.inbounds = inbounds (portOr opts.httpPort 10809) (portOr opts.socksPort 10808)) :
    Listens opts config ↔ opts.httpPort < 65536 ∧ opts.socksPort < 65536 := by
  have hhttp := @toNat_portOr opts.httpPort 10809
  have hsocks := @toNat_portOr opts.socksPort 10808
  rw [← hhttp, ← hsocks]
  constructor
  · rintro ⟨http, socks, heq, -, -, hport, hport'⟩
    rw [h] at heq
    obtain rfl | rfl := hinbounds
    · cases heq
      exact ⟨hport, hport'⟩
    · cases heq
      exact ⟨hport, hport'⟩
  · rintro ⟨hport, hport'⟩
    obtain rfl | rfl := hinbounds
    · exact ⟨_, _, h, rfl, rfl, hport, hport'⟩
    · exact ⟨_, _, h, rfl, rfl, hport, hport'⟩

theorem rawArgs_eq (hmode : opts.routingMode ≠ []) (fileExists : Bytes → Bool) :
    opts.rawArgs fileExists = opts.args fileExists := by
  simp only [ParseOptions.rawArgs, ParseOptions.args, orDefault, if_neg hmode]

theorem not_sameDecoded (hmode : opts.routingMode = []) (fileExists : Bytes → Bool)
    (inbounds inbounds' : List InboundConfig) (outbounds outbounds' : List OutboundConfig) :
    ¬SameDecoded ((opts.rawArgs fileExists).output inbounds outbounds)
      ((opts.args fileExists).output inbounds' outbounds') := by
  rintro ⟨-, -, -, hdecoded⟩
  have hlength := congrArg (fun config => config.rules.length) hdecoded
  simp [OutputConfig.decoded, ParseArgs.output, buildRoutingConfig, ParseOptions.rawArgs, ParseOptions.args,
    orDefault, hmode, show ascii "proxy" ≠ [] from by decide] at hlength

/-- Every outbound of a configuration passes the validation of `Parse`. -/
def Valid (config : OutputConfig) : Prop := ∀ ob ∈ config.outbounds, (validateOutbound ob).isOk = true

theorem agree_iff_valid {unmarshal : Bytes → Option (Map Json)} {fileExists : Bytes → Bool}
    {scheme : Scheme} (hscheme : hasPrefix opts.uri scheme.text = true) :
    Agree unmarshal fileExists scheme opts ↔
      ∀ config, scheme.entry unmarshal fileExists opts = some config →
        Valid config ∧ opts.routingMode ≠ [] ∧ opts.httpPort < 65536 ∧ opts.socksPort < 65536 := by
  obtain ⟨rest, huri⟩ := List.isPrefixOf_iff_prefix.mp hscheme
  have hentry := entry_eq_parseLink unmarshal fileExists huri.symm
  have hparse : parse unmarshal fileExists opts = (parseLink unmarshal opts.uri (opts.args fileExists)).filter
    fun config => config.outbounds.all fun ob => (validateOutbound ob).isOk := rfl
  obtain ⟨link, inbounds, hinbounds, hlink⟩ := exists_parseLink_eq unmarshal opts.uri
  rw [hlink] at hentry hparse
  cases link with
  | none => refine iff_of_true ⟨?_, ?_, ?_⟩ ?_ <;> simp [hentry, hparse]
  | some outbounds =>
      have hports (args : ParseArgs) (hhttp : args.httpPort = portOr opts.httpPort 10809)
          (hsocks : args.socksPort = portOr opts.socksPort 10808) :
          Listens opts (args.output (inbounds args.httpPort args.socksPort) outbounds) ↔
            opts.httpPort < 65536 ∧ opts.socksPort < 65536 := by
        refine listens_iff hinbounds ?_
        rw [← hhttp, ← hsocks]
        rfl
      constructor
      · rintro ⟨haccepted, hdecoded, hlistens⟩ config hconfig
        have hsome : (parse unmarshal fileExists opts).isSome = true := by rw [← haccepted, hconfig]; rfl
        obtain ⟨config', hconfig'⟩ := Option.isSome_iff_exists.mp hsome
        have hsame := hdecoded config config' hconfig hconfig'
        have hlisten := hlistens config (.inl hconfig)
        rw [hentry] at hconfig
        obtain rfl := Option.some.inj hconfig
        rw [hparse, Option.filter_eq_some_iff] at hconfig'
        obtain ⟨hoperand, hvalid⟩ := hconfig'
        obtain rfl := Option.some.inj hoperand
        refine ⟨List.all_eq_true.mp hvalid, fun hmode => ?_, (hports _ rfl rfl).mp hlisten⟩
        exact not_sameDecoded hmode fileExists _ _ _ _ hsame
      · intro hregular
        obtain ⟨hvalid, hmode, hrange⟩ := hregular _ hentry
        rw [rawArgs_eq hmode] at hentry hvalid
        have hsame : parse unmarshal fileExists opts = scheme.entry unmarshal fileExists opts := by
          rw [hparse, hentry]
          exact Option.filter_eq_some_iff.mpr ⟨rfl, List.all_eq_true.mpr hvalid⟩
        refine ⟨by rw [hsame], fun config config' hconfig hconfig' => ?_, fun config hconfig => ?_⟩
        · rw [hsame, hconfig] at hconfig'
          obtain rfl := Option.some.inj hconfig'
          exact ⟨rfl, rfl, rfl, rfl⟩
        · rw [hsame, or_self, hentry] at hconfig
          obtain rfl := Option.some.inj hconfig
          exact (hports _ rfl rfl).mpr hrange

/-! ### Links with a server -/

/-- The server that a link names has an address, a port and a credential. A VLESS link without a user names
none, and a Shadowsocks link with a plugin is not accepted without a credential. -/
def Complete (unmarshal : Bytes → Option (Map Json)) (uri : Bytes) : Scheme → Prop
  | .vless => ∀ u, Url.parse uri = .ok u → u.username ≠ [] →
      u.hostname ≠ [] ∧ parseUint u.port 16 ≠ some 0
  | .trojan => ∀ u, Url.parse uri = .ok u →
      u.hostname ≠ [] ∧ parseUint u.port 16 ≠ some 0 ∧ u.username ≠ []
  | .ss => ∀ u, Url.parse uri = .ok u → u.hostname ≠ [] ∧ parseUint u.port 16 ≠ some 0 ∧
      (contains uri (ascii "plugin=") = false → ∀ encodedPart decoded method password,
        shadowsocksEncodedPart u uri = .ok encodedPart → decodeAuth encodedPart = some decoded →
        splitTwo 58 decoded = some (method, password) → method ≠ [] ∧ password ≠ [])
  | .vmess => ∀ jsonData data, Base64.stdEncoding.decode (trimPrefix uri (ascii "vmess://")) = some jsonData →
      unmarshal jsonData = some data → Json.asString (Json.get data "add") ≠ some [] ∧
        parseUintValue (Json.get data "port") ≠ some 0 ∧ Json.asString (Json.get data "id") ≠ some []

theorem validateServer_isOk {protocol address : Bytes} {port : UInt16} {hasCredential : Bool} {missing : String} :
    (validateServer protocol address port hasCredential missing).isOk = true ↔
      address ≠ [] ∧ port ≠ 0 ∧ hasCredential = true := by
  unfold validateServer
  split_ifs with haddress hport hcredential <;> simp_all [Except.isOk, Except.toBool]

theorem forall_withDefaultOutbounds {ob : OutboundConfig} :
    (∀ ob' ∈ withDefaultOutbounds ob, (validateOutbound ob').isOk = true) ↔
      (validateOutbound ob).isOk = true := by
  have hdirect : (validateOutbound { protocol := ascii "freedom", tag := ascii "Direct" }).isOk = true := by
    decide
  have hreject : (validateOutbound { protocol := ascii "blackhole", tag := ascii "Reject" }).isOk = true := by
    decide
  simp [withDefaultOutbounds, hdirect, hreject]

theorem toUInt16_eq_zero_iff {text : Bytes} {n : Nat} (h : parseUint text 16 = some n) :
    n.toUInt16 = 0 ↔ parseUint text 16 = some 0 := by
  have hlt : n < 2 ^ 16 := by
    unfold parseUint at h
    dsimp only at h
    split_ifs at h with _ hsmall
    rwa [← Option.some.inj h]
  rw [h, Option.some_inj, ← UInt16.toNat_inj]
  show n % 2 ^ 16 = 0 ↔ n = 0
  rw [Nat.mod_eq_of_lt hlt]

theorem mustParsePort_eq_zero_iff {text : Bytes} : mustParsePort text = 0 ↔ parseUint text 16 = some 0 := by
  cases h : parseUint text 16 with
  | none =>
      rw [mustParsePort, h]
      exact iff_of_false (by decide) nofun
  | some n =>
      rw [mustParsePort, h, Option.getD_some, ← h]
      exact toUInt16_eq_zero_iff h

theorem parsePort_eq_zero_iff {context : String} {text : Bytes} {port : UInt16}
    (h : parsePort context text = .ok port) : port = 0 ↔ parseUint text 16 = some 0 := by
  unfold parsePort at h
  split at h
  · next hn =>
      obtain rfl := Except.ok.inj h
      exact toUInt16_eq_zero_iff hn
  · cases h

section Validation

variable {u : Url.URL} {port : UInt16} {streamSettings : StreamSettings}

theorem validateServer_coerce {protocol address credential : Bytes} {missing : String} :
    (validateServer protocol (Utf8.coerce address) port (Utf8.coerce credential ≠ []) missing).isOk = true ↔
      address ≠ [] ∧ port ≠ 0 ∧ credential ≠ [] := by
  rw [validateServer_isOk, decide_eq_true_eq, ne_eq, ne_eq (Utf8.coerce credential), Utf8.coerce_eq_nil_iff,
    Utf8.coerce_eq_nil_iff]

theorem validateOutbound_vless {encryption : Bytes} :
    (validateOutbound (vlessOutbound u port encryption streamSettings)).isOk = true ↔
      u.hostname ≠ [] ∧ port ≠ 0 ∧ u.username ≠ [] := validateServer_coerce

theorem validateOutbound_trojan :
    (validateOutbound (trojanOutbound u port streamSettings)).isOk = true ↔
      u.hostname ≠ [] ∧ port ≠ 0 ∧ u.username ≠ [] := validateServer_coerce

theorem validateOutbound_vmess {remark address id security : Bytes} {alterID : UInt16} :
    (validateOutbound (vmessOutbound remark { address, port, users := [{ id, alterID, security }] }
        streamSettings)).isOk = true ↔ address ≠ [] ∧ port ≠ 0 ∧ id ≠ [] := validateServer_coerce

theorem validateOutbound_shadowsocks {method password : Bytes} :
    (validateOutbound (shadowsocksOutbound u method password streamSettings)).isOk = true ↔
      u.hostname ≠ [] ∧ mustParsePort u.port ≠ 0 ∧ method ≠ [] ∧ password ≠ [] := by
  refine validateServer_isOk.trans ?_
  rw [Bool.and_eq_true, decide_eq_true_eq, decide_eq_true_eq]
  simp only [ne_eq, Utf8.coerce_eq_nil_iff]

end Validation

section Complete

variable {unmarshal : Bytes → Option (Map Json)} {uri : Bytes} {args : ParseArgs} {config : OutputConfig}

theorem valid_output {inbounds : List InboundConfig} {ob : OutboundConfig} :
    Valid (args.output inbounds (withDefaultOutbounds ob)) ↔ (validateOutbound ob).isOk = true :=
  forall_withDefaultOutbounds

theorem valid_vless_iff (h : parseVless uri args = .ok config) :
    Valid config ↔ Complete unmarshal uri .vless := by
  obtain ⟨u, hu, h⟩ := bind_eq_ok.mp h
  obtain ⟨port, hport, h⟩ := bind_eq_ok.mp h
  have hparse := parseURL_eq_ok.mp hu
  dsimp only at h
  split_ifs at h with _ hname
  · obtain rfl := Except.ok.inj h
    refine iff_of_true (fun ob hob => absurd hob List.not_mem_nil) fun u' hu' hname' => absurd hname ?_
    rwa [Except.ok.inj (hparse.symm.trans hu')]
  · obtain ⟨streamSettings, -, h⟩ := bind_eq_ok.mp h
    obtain rfl := Except.ok.inj h
    rw [valid_output, validateOutbound_vless, ne_eq port, parsePort_eq_zero_iff hport]
    constructor
    · rintro ⟨haddress, hzero, -⟩ u' hu' -
      obtain rfl := Except.ok.inj (hparse.symm.trans hu')
      exact ⟨haddress, hzero⟩
    · intro hcomplete
      obtain ⟨haddress, hzero⟩ := hcomplete u hparse hname
      exact ⟨haddress, hzero, hname⟩

theorem valid_trojan_iff (h : parseTrojan uri args = .ok config) :
    Valid config ↔ Complete unmarshal uri .trojan := by
  obtain ⟨u, hu, h⟩ := bind_eq_ok.mp h
  obtain ⟨port, hport, h⟩ := bind_eq_ok.mp h
  obtain ⟨streamSettings, -, h⟩ := bind_eq_ok.mp h
  obtain rfl := Except.ok.inj h
  have hparse := parseURL_eq_ok.mp hu
  rw [valid_output, validateOutbound_trojan, ne_eq port, parsePort_eq_zero_iff hport]
  refine ⟨fun hserver u' hu' => ?_, fun hcomplete => hcomplete u hparse⟩
  obtain rfl := Except.ok.inj (hparse.symm.trans hu')
  exact hserver

theorem valid_vmess_iff (h : parseVmess unmarshal uri args = .ok config) :
    Valid config ↔ Complete unmarshal uri .vmess := by
  rw [parseVmess] at h
  split at h
  · cases h
  split at h
  · cases h
  rename_i jsonData hdecode
  split at h
  · cases h
  rename_i data hdata
  obtain ⟨vnext, hvnext, h⟩ := bind_eq_ok.mp h
  obtain rfl := Except.ok.inj h
  rw [vmessVnext] at hvnext
  split at hvnext
  · cases hvnext
  rename_i address haddress
  split at hvnext
  · cases hvnext
  rename_i port hport
  split at hvnext
  · cases hvnext
  rename_i id hid
  obtain rfl := Except.ok.inj hvnext
  have hfields : (address ≠ [] ∧ port ≠ 0 ∧ id ≠ []) ↔ Json.asString (Json.get data "add") ≠ some [] ∧
      parseUintValue (Json.get data "port") ≠ some 0 ∧ Json.asString (Json.get data "id") ≠ some [] := by
    rw [haddress, hport, hid, ne_eq, ne_eq, ne_eq, ne_eq, ne_eq, ne_eq, Option.some_inj, Option.some_inj,
      Option.some_inj]
  rw [valid_output, validateOutbound_vmess, hfields]
  refine ⟨fun hserver jsonData' data' hdecode' hdata' => ?_, fun hcomplete => hcomplete _ _ hdecode hdata⟩
  obtain rfl := Option.some.inj (hdecode.symm.trans hdecode')
  obtain rfl := Option.some.inj (hdata.symm.trans hdata')
  exact hserver

theorem valid_shadowsocks_iff (h : parseShadowsocks uri args = .ok config) :
    Valid config ↔ Complete unmarshal uri .ss := by
  rw [parseShadowsocks] at h
  split at h
  · rename_i hplugin
    obtain ⟨u, hu, h⟩ := bind_eq_ok.mp h
    obtain ⟨⟨method, password⟩, -, h⟩ := bind_eq_ok.mp h
    have hparse := parseURL_eq_ok.mp hu
    dsimp only at h
    split_ifs at h with hauth
    obtain rfl := Except.ok.inj h
    rw [valid_output, validateOutbound_shadowsocks, ne_eq (mustParsePort _), mustParsePort_eq_zero_iff]
    constructor
    · rintro ⟨haddress, hzero, -⟩ u' hu'
      obtain rfl := Except.ok.inj (hparse.symm.trans hu')
      exact ⟨haddress, hzero, fun hnone => absurd hplugin (by rw [hnone]; decide)⟩
    · intro hcomplete
      obtain ⟨haddress, hzero, -⟩ := hcomplete u hparse
      exact ⟨haddress, hzero, not_or.mp hauth⟩
  · rename_i hplugin
    obtain ⟨u, hu, h⟩ := bind_eq_ok.mp h
    obtain ⟨encodedPart, hencoded, h⟩ := bind_eq_ok.mp h
    have hparse := parseURL_eq_ok.mp hu
    split at h
    · cases h
    rename_i decoded hdecoded
    split at h
    · cases h
    rename_i method password hsplit
    obtain rfl := Except.ok.inj h
    rw [valid_output, validateOutbound_shadowsocks, ne_eq (mustParsePort _), mustParsePort_eq_zero_iff]
    constructor
    · rintro ⟨haddress, hzero, hauth⟩ u' hu'
      obtain rfl := Except.ok.inj (hparse.symm.trans hu')
      refine ⟨haddress, hzero, fun _ encodedPart' decoded' method' password' hencoded' hdecoded' hsplit' => ?_⟩
      obtain rfl := Except.ok.inj (hencoded.symm.trans hencoded')
      obtain rfl := Option.some.inj (hdecoded.symm.trans hdecoded')
      cases hsplit.symm.trans hsplit'
      exact hauth
    · intro hcomplete
      obtain ⟨haddress, hzero, hauth⟩ := hcomplete u hparse
      exact ⟨haddress, hzero, hauth (Bool.eq_false_iff.mpr hplugin) _ _ _ _ hencoded hdecoded hsplit⟩

theorem valid_iff_complete {fileExists : Bytes → Bool} {scheme : Scheme} {opts : ParseOptions}
    (h : scheme.entry unmarshal fileExists opts = some config) :
    Valid config ↔ Complete unmarshal opts.uri scheme := by
  cases scheme with
  | vless => exact valid_vless_iff (toOption_eq_some.mp h)
  | vmess => exact valid_vmess_iff (toOption_eq_some.mp h)
  | trojan => exact valid_trojan_iff (toOption_eq_some.mp h)
  | ss => exact valid_shadowsocks_iff (toOption_eq_some.mp h)

end Complete

/-- **The entry points agree on complete links** if the options leave nothing to a default or a cut: the routing
mode is given and the ports are below 65536. On a link that is accepted they agree in no other case. -/
theorem agree_of_complete {unmarshal : Bytes → Option (Map Json)} {fileExists : Bytes → Bool} {scheme : Scheme}
    {opts : ParseOptions} (hscheme : hasPrefix opts.uri scheme.text = true) :
    let regular := Complete unmarshal opts.uri scheme ∧ opts.routingMode ≠ [] ∧ opts.httpPort < 65536 ∧
      opts.socksPort < 65536
    (regular → Agree unmarshal fileExists scheme opts) ∧
      ((scheme.entry unmarshal fileExists opts).isSome = true → Agree unmarshal fileExists scheme opts →
        regular) := by
  intro regular
  constructor
  · rintro ⟨hcomplete, hoptions⟩
    exact (agree_iff_valid hscheme).mpr fun config hconfig =>
      ⟨(valid_iff_complete hconfig).mpr hcomplete, hoptions⟩
  · intro haccepted hagree
    obtain ⟨config, hconfig⟩ := Option.isSome_iff_exists.mp haccepted
    obtain ⟨hvalid, hoptions⟩ := (agree_iff_valid hscheme).mp hagree config hconfig
    exact ⟨(valid_iff_complete hconfig).mp hvalid, hoptions⟩

theorem agree_trojan :
    hasPrefix (ascii "trojan://pw@h:443") Scheme.trojan.text = true ∧
      Agree (fun _ => none) (fun _ => false) .trojan
        { uri := ascii "trojan://pw@h:443", routingMode := ascii "proxy" } := by
  refine ⟨by decide, (agree_of_complete (by decide)).1 ⟨fun u hu => ?_, by decide, by decide, by decide⟩⟩
  have hfields : (Url.parse (ascii "trojan://pw@h:443")).toOption.all (fun u =>
      u.hostname ≠ [] ∧ parseUint u.port 16 ≠ some 0 ∧ u.username ≠ []) = true := by
    decide +kernel
  rw [hu] at hfields
  exact of_decide_eq_true hfields

/-- Without a routing mode `Parse` adds a rule that `ParseTrojan` does not add. -/
theorem not_agree_default_mode :
    ¬Agree (fun _ => none) (fun _ => false) .trojan { uri := ascii "trojan://pw@h:443" } := by
  intro hagree
  have hentry : (Scheme.trojan.entry (fun _ => none) (fun _ => false)
      { uri := ascii "trojan://pw@h:443" }).map (fun config => config.decoded.rules.length) = some 0 := by
    decide +kernel
  have hparse : (parse (fun _ => none) (fun _ => false) { uri := ascii "trojan://pw@h:443" }).map
      (fun config => config.decoded.rules.length) = some 1 := by
    decide +kernel
  obtain ⟨config, hconfig, hnone⟩ := Option.map_eq_some_iff.mp hentry
  obtain ⟨config', hconfig', hone⟩ := Option.map_eq_some_iff.mp hparse
  rw [(hagree.decoded config config' hconfig hconfig').2.2.2, hone] at hnone
  cases hnone

end V2RootCore.ShareLink
