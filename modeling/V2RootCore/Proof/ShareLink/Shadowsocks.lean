import Mathlib
import V2RootCore.Proof.Go.Base64
import V2RootCore.Proof.ShareLink.Link

/-!
# Round trips of Shadowsocks links

Method and password are written in padded URL-safe base64 and read in unpadded URL-safe or padded
standard base64, so it depends on them whether a link can be read. The server name of TLS is written
as an option of the plugin that is not read.
-/

namespace V2RootCore.ShareLink

open Go Utf8

/-! ### Outbounds -/

/-- The stream settings that have a Shadowsocks link. -/
inductive ShadowsocksStream where
  | tcp
  | ws (path host : Bytes) (tls : Bool) (sni : Bytes)
  deriving DecidableEq, Repr

def ShadowsocksStream.streamSettings : ShadowsocksStream → StreamSettings
  | tcp => { network := ascii "tcp" }
  | ws path host tls sni =>
      { network := ascii "ws"
        security := if tls then ascii "tls" else []
        wsSettings := some {
          path := path, headers := if host = [] then [] else [(ascii "Host", host)] }
        tlsSettings := if tls ∨ sni ≠ [] then some { sni } else none }

/-- The outbound of one server. -/
def shadowsocksServerOutbound (server : ShadowsocksServer) (remark : Bytes)
    (stream : ShadowsocksStream) : OutboundConfig :=
  { tag := ascii "Proxy"
    protocol := ascii "shadowsocks"
    remark := remark
    settings := .shadowsocks { servers := [server] }
    streamSettings := some stream.streamSettings }

/-- What a Shadowsocks link is about. -/
structure ShadowsocksFields where
  servers : List ShadowsocksServer
  remark : Bytes
  network : Bytes
  path : Bytes
  host : Bytes
  security : Bytes
  sni : Bytes
  deriving DecidableEq, Repr

def shadowsocksFields (ob : OutboundConfig) : ShadowsocksFields :=
  let streamSettings := ob.streamSettings.getD { network := [] }
  { servers :=
      match ob.settings with
      | .shadowsocks settings => settings.servers
      | _ => []
    remark := ob.remark
    network := streamSettings.network
    path := (streamSettings.wsSettings.map WSSettings.path).getD []
    host := (streamSettings.wsSettings.bind fun settings =>
      settings.headers.lookup (ascii "Host")).getD []
    security := streamSettings.security
    sni := (streamSettings.tlsSettings.map TLSSettings.sni).getD [] }

/-! ### Method and password -/

section Auth

variable {auth : Bytes}

/-- The text is in whole quanta, so it has no padding, or in characters of both alphabets. -/
def AuthReadable (auth : Bytes) : Prop :=
  auth.length % 3 = 0 ∨
    (45 ∉ Base64.urlEncoding.encode auth ∧ 95 ∉ Base64.urlEncoding.encode auth)

instance (auth : Bytes) : Decidable (AuthReadable auth) := by
  unfold AuthReadable
  infer_instance

theorem decode_rawURLEncoding (h : auth.length % 3 ≠ 0) :
    Base64.rawURLEncoding.decode (Base64.urlEncoding.encode auth) = none :=
  Base64.Encoding.decode_eq_none (Base64.padChar_mem_urlEncoding h) (by decide) (by decide)

theorem decodeAuth_encode (h : AuthReadable auth) :
    decodeAuth (Base64.urlEncoding.encode auth) = some auth := by
  unfold decodeAuth
  by_cases hwhole : auth.length % 3 = 0
  · rw [Base64.urlEncoding_eq_rawURLEncoding hwhole, Base64.Encoding.decode_encode, Option.some_or]
  · obtain ⟨hminus, hunderscore⟩ := h.resolve_left hwhole
    rw [decode_rawURLEncoding hwhole, Option.none_or,
      Base64.urlEncoding_eq_stdEncoding hminus hunderscore, Base64.Encoding.decode_encode]

theorem decodeAuth_encode_eq_none (h : ¬ AuthReadable auth) :
    decodeAuth (Base64.urlEncoding.encode auth) = none := by
  rw [AuthReadable, not_or, not_and_or, not_not, not_not] at h
  obtain ⟨hwhole, hminus | hunderscore⟩ := h
  · rw [decodeAuth, decode_rawURLEncoding hwhole, Option.none_or]
    exact Base64.Encoding.decode_eq_none hminus (by decide) (by decide)
  · rw [decodeAuth, decode_rawURLEncoding hwhole, Option.none_or]
    exact Base64.Encoding.decode_eq_none hunderscore (by decide) (by decide)

theorem userinfo_of_isText {c : UInt8} : Base64.urlEncoding.isText c = true →
    Url.isRawUserinfoByte c = true ∧ Url.escapeByte .userPassword c = [c] := by
  revert c
  apply forall_byte
  decide +kernel

theorem encode_isRawUserinfoByte (auth : Bytes) :
    ∀ c ∈ Base64.urlEncoding.encode auth, Url.isRawUserinfoByte c = true :=
  fun _ hc => (userinfo_of_isText (Base64.Encoding.isText_of_mem_encode hc)).1

theorem encode_ne_nil (h : auth ≠ []) : Base64.urlEncoding.encode auth ≠ [] := by
  intro hnil
  have hdecode := @Base64.Encoding.decode_encode Base64.urlEncoding auth
  rw [hnil] at hdecode
  exact h (Option.some.inj hdecode).symm

theorem string_encode (h : auth ≠ []) :
    Url.Userinfo.string { username := Base64.urlEncoding.encode auth }
      = Base64.urlEncoding.encode auth := by
  have hescape : Url.escape (Base64.urlEncoding.encode auth) .userPassword
      = Base64.urlEncoding.encode auth := by
    refine (List.flatMap_congr fun c hc => ?_).trans (List.flatMap_singleton' _)
    exact (userinfo_of_isText (Base64.Encoding.isText_of_mem_encode hc)).2
  rw [Url.Userinfo.string, if_pos (Or.inl (encode_ne_nil h)), hescape]
  simp

theorem splitTwo_append {method : Bytes} (h : 58 ∉ method) (password : Bytes) :
    splitTwo 58 (method ++ 58 :: password) = some (method, password) := by
  rw [splitTwo, if_pos (by simp), cut_append h]

end Auth

/-! ### Parsing -/

section Parsing

variable {uri : Bytes} {u : Url.URL} {auth method password : Bytes}

theorem parseShadowsocks_eq_ok {args : ParseArgs} {config : OutputConfig}
    (h : parseShadowsocks uri args = .ok config) :
    ∃ u method password streamSettings, Url.parse uri = .ok u ∧ config.outbounds
      = withDefaultOutbounds (shadowsocksOutbound u method password streamSettings) := by
  unfold parseShadowsocks at h
  split at h
  · obtain ⟨u, hu, h⟩ := bind_eq_ok.mp h
    obtain ⟨⟨method, password⟩, -, h⟩ := bind_eq_ok.mp h
    simp only at h
    split at h
    · cases h
    · rw [← Except.ok.inj h]
      exact ⟨u, method, password, _, parseURL_eq_ok.mp hu, rfl⟩
  · obtain ⟨u, hu, h⟩ := bind_eq_ok.mp h
    obtain ⟨encodedPart, -, h⟩ := bind_eq_ok.mp h
    split at h
    · cases h
    split at h
    · cases h
    rename_i method password _
    rw [← Except.ok.inj h]
    exact ⟨u, method, password, _, parseURL_eq_ok.mp hu, rfl⟩

def linkStreamSettings (uri : Bytes) (u : Url.URL) : StreamSettings :=
  if contains uri (ascii "plugin=") then pluginStreamSettings (param u.query)
  else { network := ascii "tcp" }

theorem headOutbound_parseShadowsocks (hparse : Url.parse uri = .ok u)
    (huser : u.user = some { username := Base64.urlEncoding.encode (method ++ 58 :: password) })
    (hreadable : AuthReadable (method ++ 58 :: password)) (hcolon : 58 ∉ method) (hmethod : method ≠ [])
    (hpassword : password ≠ []) (args : ParseArgs) :
    headOutbound (parseShadowsocks uri args)
      = some (shadowsocksOutbound u method password (linkStreamSettings uri u)) := by
  have hne : method ++ 58 :: password ≠ [] := by simp
  have husername : u.username = Base64.urlEncoding.encode (method ++ 58 :: password) := by
    rw [Url.URL.username, huser]
    rfl
  unfold parseShadowsocks linkStreamSettings
  split
  · have hauth : pluginAuth u.user = .ok (method, password) := by
      rw [huser]
      simp only [pluginAuth, string_encode hne, decodeAuth_encode hreadable,
        splitTwo_append hcolon, Option.getD_some]
    rw [parseShadowsocksPlugin, parseURL_eq_ok.mpr hparse]
    simp only [bind, Except.bind, hauth, hmethod, hpassword, or_self, if_false]
    rfl
  · have hencoded : shadowsocksEncodedPart u uri
        = .ok (Base64.urlEncoding.encode (method ++ 58 :: password)) := by
      rw [shadowsocksEncodedPart, husername, if_pos (encode_ne_nil hne)]
    rw [parseURL_eq_ok.mpr hparse]
    simp only [bind, Except.bind, hencoded, decodeAuth_encode hreadable, splitTwo_append hcolon]
    rfl

theorem headOutbound_parseShadowsocks_eq_none (hparse : Url.parse uri = .ok u) (hne : auth ≠ [])
    (huser : u.user = some { username := Base64.urlEncoding.encode auth })
    (hreadable : ¬ AuthReadable auth) (args : ParseArgs) :
    headOutbound (parseShadowsocks uri args) = none := by
  have husername : u.username = Base64.urlEncoding.encode auth := by
    rw [Url.URL.username, huser]
    rfl
  unfold parseShadowsocks
  split
  · rw [parseShadowsocksPlugin, parseURL_eq_ok.mpr hparse]
    simp only [bind, Except.bind, huser, pluginAuth, string_encode hne,
      decodeAuth_encode_eq_none hreadable]
    rfl
  · rw [parseURL_eq_ok.mpr hparse]
    simp only [bind, Except.bind, shadowsocksEncodedPart, husername, ne_eq, encode_ne_nil hne,
      not_false_eq_true, if_true, decodeAuth_encode_eq_none hreadable]
    rfl

end Parsing

/-! ### Plugin options -/

section Plugin

variable {path host sni : Bytes} {tls : Bool}

def pluginOptions (path host : Bytes) (tls : Bool) (sni : Bytes) : List Bytes :=
  (if tls then [ascii "tls"] else []) ++
    ((if host = [] then [] else [ascii "host=" ++ host]) ++
      if path = [] then [] else [ascii "path=" ++ path]) ++
    if sni = [] then [] else [ascii "sni=" ++ sni]

theorem lookup_host (host : Bytes) :
    ((if host = [] then [] else [(ascii "Host", host)]).lookup (ascii "Host")).getD [] = host := by
  split
  · rename_i hnil
    rw [hnil]
    rfl
  · simp

theorem sni_settings (tls : Bool) (sni : Bytes) :
    (match if tls ∨ sni ≠ [] then some ({ sni } : TLSSettings) else none with
      | none => []
      | some settings => if settings.sni = [] then [] else [ascii "sni=" ++ settings.sni])
      = if sni = [] then [] else [ascii "sni=" ++ sni] := by
  by_cases hsni : sni = []
  · cases tls <;> simp [hsni]
  · simp [hsni]

theorem getPluginInfo_ws :
    getPluginInfo (ShadowsocksStream.ws path host tls sni).streamSettings
      = some (ascii "v2ray-plugin;" ++ [59].intercalate (pluginOptions path host tls sni)) := by
  have htls : ((if tls then ascii "tls" else []) = ascii "tls") ↔ tls = true := by
    cases tls <;> decide
  simp only [getPluginInfo, ShadowsocksStream.streamSettings, if_true, lookup_host, htls,
    pluginOptions]
  exact congrArg (fun options => some (ascii "v2ray-plugin;" ++ [59].intercalate (_ ++ options)))
    (sni_settings tls sni)

theorem read_host (options : PluginOptions) (host : Bytes) : options.read (ascii "host=" ++ host)
    = { options with ws := { options.ws with headers := [(ascii "Host", host)] } } := by
  have htls : ascii "host=" ++ host ≠ ascii "tls" := nofun
  rw [PluginOptions.read, if_neg htls, if_pos (hasPrefix_append _ _), trimPrefix_append]

theorem read_path (options : PluginOptions) (path : Bytes) : options.read (ascii "path=" ++ path)
    = { options with ws := { options.ws with path } } := by
  have htls : ascii "path=" ++ path ≠ ascii "tls" := nofun
  have hhost : ¬ hasPrefix (ascii "path=" ++ path) (ascii "host=") = true := nofun
  rw [PluginOptions.read, if_neg htls, if_neg hhost, if_pos (hasPrefix_append _ _), trimPrefix_append]

theorem read_sni (options : PluginOptions) (sni : Bytes) : options.read (ascii "sni=" ++ sni)
    = options := by
  have htls : ascii "sni=" ++ sni ≠ ascii "tls" := nofun
  have hhost : ¬ hasPrefix (ascii "sni=" ++ sni) (ascii "host=") = true := nofun
  have hpath : ¬ hasPrefix (ascii "sni=" ++ sni) (ascii "path=") = true := nofun
  rw [PluginOptions.read, if_neg htls, if_neg hhost, if_neg hpath]

theorem foldl_pluginOptions (path host : Bytes) (tls : Bool) (sni : Bytes) :
    (pluginOptions path host tls sni).foldl PluginOptions.read {}
      = { isTLS := tls
          ws := { path, headers := if host = [] then [] else [(ascii "Host", host)] } } := by
  have hsni : ∀ options, (if sni = [] then [] else [ascii "sni=" ++ sni]).foldl PluginOptions.read
      options = options := by
    intro options
    split
    · rfl
    · exact read_sni options sni
  have htls : (if tls then [ascii "tls"] else []).foldl PluginOptions.read {} = { isTLS := tls } := by
    cases tls <;> rfl
  rw [pluginOptions, List.foldl_append, List.foldl_append, List.foldl_append, hsni, htls]
  by_cases hhost : host = []
  · by_cases hpath : path = []
    · simp [hhost, hpath]
    · simp [hhost, hpath, read_path]
  · by_cases hpath : path = []
    · simp [hhost, hpath, read_host]
    · simp [hhost, hpath, read_path, read_host]

theorem notMem_pluginOptions (hpath : 59 ∉ path) (hhost : 59 ∉ host) (hsni : 59 ∉ sni) :
    ∀ opt ∈ pluginOptions path host tls sni, 59 ∉ opt := by
  have hoption : ∀ (name : String) (value : Bytes), 59 ∉ ascii name → 59 ∉ value →
      ∀ opt ∈ (if value = [] then [] else [ascii name ++ value]), 59 ∉ opt := by
    intro name value hname hvalue opt hopt
    split at hopt
    · cases hopt
    · rw [List.mem_singleton.mp hopt, List.mem_append, not_or]
      exact ⟨hname, hvalue⟩
  intro opt hopt
  simp only [pluginOptions, List.mem_append] at hopt
  rcases hopt with (hopt | hopt | hopt) | hopt
  · cases tls with
    | false => cases hopt
    | true =>
        rw [List.mem_singleton.mp hopt]
        decide
  · exact hoption "host=" host (by decide) hhost opt hopt
  · exact hoption "path=" path (by decide) hpath opt hopt
  · exact hoption "sni=" sni (by decide) hsni opt hopt

theorem splitOn_plugin (options : Bytes) :
    (ascii "v2ray-plugin;" ++ options).splitOn 59 = ascii "v2ray-plugin" :: options.splitOn 59 := by
  have hname : ascii "v2ray-plugin;" = ascii "v2ray-plugin" ++ [59] := by decide
  rw [hname, List.append_assoc, List.singleton_append,
    List.splitOn_append_cons_self_of_not_mem (by decide)]

theorem foldl_read_plugin (hpath : 59 ∉ path) (hhost : 59 ∉ host) (hsni : 59 ∉ sni) :
    ((ascii "v2ray-plugin;" ++ [59].intercalate (pluginOptions path host tls sni)).splitOn 59).foldl
        PluginOptions.read {}
      = (pluginOptions path host tls sni).foldl PluginOptions.read {} := by
  rw [splitOn_plugin]
  by_cases hnil : pluginOptions path host tls sni = []
  · rw [hnil]
    rfl
  · rw [List.splitOn_intercalate 59 (notMem_pluginOptions hpath hhost hsni) hnil]
    rfl

/-- **The stream settings of a plugin**, without the server name. -/
theorem pluginStreamSettings_ws (hpath : 59 ∉ path) (hhost : 59 ∉ host) (hsni : 59 ∉ sni)
    {get : String → Bytes} (hget : ∀ key ∈ ["security", "path", "host", "sni", "fp"], get key = [])
    (hplugin : get "plugin"
      = ascii "v2ray-plugin;" ++ [59].intercalate (pluginOptions path host tls sni)) :
    pluginStreamSettings get = (ShadowsocksStream.ws path host tls []).streamSettings := by
  have hhead : ((get "plugin").splitOn 59).head? = some (ascii "v2ray-plugin") := by
    rw [hplugin, splitOn_plugin]
    rfl
  have hfold := @foldl_read_plugin path host sni tls hpath hhost hsni
  rw [foldl_pluginOptions, ← hplugin] at hfold
  simp only [pluginStreamSettings, if_pos hhead, hfold, hget "security" (by decide),
    hget "path" (by decide), hget "host" (by decide), hget "sni" (by decide),
    hget "fp" (by decide), orDefault, if_true, ShadowsocksStream.streamSettings]
  cases tls <;> rfl

end Plugin

/-! ### The round trip -/

section RoundTrip

variable {server : ShadowsocksServer} {remark : Bytes} {stream : ShadowsocksStream}

def pluginQuery (stream : ShadowsocksStream) : Url.Values :=
  match getPluginInfo stream.streamSettings with
  | none => []
  | some plugin => [(ascii "plugin", plugin)]

theorem encode_plugin (plugin : Bytes) :
    Url.Values.encode [(ascii "plugin", plugin)] = ascii "plugin=" ++ Url.queryEscape plugin := by
  have hkey : Url.queryEscape (ascii "plugin") = ascii "plugin" := by decide
  have hequals : ascii "plugin=" = ascii "plugin" ++ [61] := by decide
  rw [Url.Values.encode, List.insertionSort_cons, List.insertionSort_nil, List.orderedInsert_nil,
    List.map_singleton, List.intercalate_singleton, Url.Values.encodePair, hkey, hequals]
  simp

theorem withPlugin_eq (stream : ShadowsocksStream) (uri : Bytes) :
    withPlugin stream.streamSettings uri = withQuery (pluginQuery stream) uri := by
  cases stream with
  | tcp => rfl
  | ws path host tls sni =>
      have hnetwork : (ShadowsocksStream.ws path host tls sni).streamSettings.network ≠ ascii "tcp" := by
        show ascii "ws" ≠ ascii "tcp"
        decide
      have hmark : ascii "?plugin=" = 63 :: ascii "plugin=" := by decide
      rw [withPlugin, if_neg hnetwork, pluginQuery, getPluginInfo_ws]
      simp only [withQuery, List.cons_ne_nil, if_false, encode_plugin, hmark, List.append_assoc,
        List.cons_append]

theorem pluginQuery_distinct (stream : ShadowsocksStream) : (pluginQuery stream).Distinct := by
  unfold pluginQuery
  split
  · exact Map.distinct_nil
  · exact List.nodup_singleton _

/-- The server as JSON keeps it. -/
def ShadowsocksServer.readBack (server : ShadowsocksServer) : ShadowsocksServer :=
  { address := coerce server.address
    port := server.port
    method := coerce server.method
    password := coerce server.password }

def ShadowsocksServer.auth (server : ShadowsocksServer) : Bytes := server.method ++ 58 :: server.password

def shadowsocksLink (server : ShadowsocksServer) (remark : Bytes) (stream : ShadowsocksStream) :
    Bytes :=
  withRemark remark (withQuery (pluginQuery stream) (authorityURI "ss"
    (Base64.urlEncoding.encode server.readBack.auth) (coerce server.address) server.port))

theorem buildShadowsocksURI_eq :
    buildShadowsocksURI (shadowsocksServerOutbound server remark stream)
      = .ok (shadowsocksLink server remark stream) := by
  rw [shadowsocksLink, ← withPlugin_eq]
  rfl

/-- The texts of a stream that are written into the plugin string. -/
def ShadowsocksStream.texts : ShadowsocksStream → List Bytes
  | tcp => []
  | ws path host _ sni => [path, host, sni]

def ShadowsocksStream.withoutSNI : ShadowsocksStream → ShadowsocksStream
  | tcp => tcp
  | ws path host tls _ => ws path host tls []

/-- The values a Shadowsocks link is made for. -/
structure ShadowsocksPlain (server : ShadowsocksServer) (remark : Bytes)
    (stream : ShadowsocksStream) : Prop where
  method : server.method ≠ [] ∧ 58 ∉ server.method
  password : server.password ≠ []
  remark : 37 ∉ remark
  texts : ∀ text ∈ stream.texts, 59 ∉ text

/-- The values that are read from their link: strings that JSON keeps, an address that needs no
escaping, base64 that is read as it is written, and no server name for TLS. -/
def ShadowsocksLinkable (server : ShadowsocksServer) (stream : ShadowsocksStream) : Prop :=
  (valid server.method = true ∧ valid server.password = true ∧ valid server.address = true) ∧
    ((∀ c ∈ server.address, Url.isHostByte c = true) ∧ 37 ∉ server.address ∧
      server.address.head? ≠ some 91) ∧
    AuthReadable server.auth ∧ stream.withoutSNI = stream

instance : Decidable (ShadowsocksLinkable server stream) := by
  unfold ShadowsocksLinkable
  infer_instance

theorem readBack_eq_self_iff : server.readBack = server ↔
    valid server.method = true ∧ valid server.password = true ∧ valid server.address = true := by
  obtain ⟨address, port, method, password⟩ := server
  simp only [ShadowsocksServer.readBack, ShadowsocksServer.mk.injEq, coerce_eq_self_iff]
  tauto

theorem contains_plugin (hquery : pluginQuery stream ≠ []) (uri : Bytes) :
    contains (withRemark remark (withQuery (pluginQuery stream) uri)) (ascii "plugin=") = true := by
  refine decide_eq_true ?_
  rw [← withPlugin_eq]
  have hplugin : ascii "plugin=" <:+: withPlugin stream.streamSettings uri := by
    cases stream with
    | tcp => exact absurd rfl hquery
    | ws path host tls sni =>
        have hnetwork : (ShadowsocksStream.ws path host tls sni).streamSettings.network
            ≠ ascii "tcp" := by
          show ascii "ws" ≠ ascii "tcp"
          decide
        rw [withPlugin, if_neg hnetwork, getPluginInfo_ws]
        exact ⟨uri ++ [63], _, by rw [List.append_assoc uri]; rfl⟩
  unfold withRemark
  split
  · exact hplugin
  · exact hplugin.trans (List.prefix_append _ _).isInfix

theorem linkStreamSettings_eq (htexts : ∀ text ∈ stream.texts, 59 ∉ text) {uri : Bytes}
    {u : Url.URL} (huri : pluginQuery stream ≠ [] → contains uri (ascii "plugin=") = true)
    (hparam : ∀ key, param u.query key = param (pluginQuery stream) key) :
    linkStreamSettings uri u = stream.withoutSNI.streamSettings := by
  have hquery : param u.query = param (pluginQuery stream) := funext hparam
  unfold linkStreamSettings
  rw [hquery]
  cases stream with
  | tcp => exact ite_self _
  | ws path host tls sni =>
      simp only [ShadowsocksStream.texts, List.forall_mem_cons] at htexts
      obtain ⟨hpath, hhost, hsni, -⟩ := htexts
      have hinfo : pluginQuery (.ws path host tls sni) = [(ascii "plugin",
          ascii "v2ray-plugin;" ++ [59].intercalate (pluginOptions path host tls sni))] := by
        rw [pluginQuery, getPluginInfo_ws]
      rw [if_pos (huri (by rw [hinfo]; simp)), hinfo]
      refine pluginStreamSettings_ws hpath hhost hsni ?_ rfl
      simp only [List.forall_mem_cons]
      exact ⟨rfl, rfl, rfl, rfl, rfl, by simp⟩

theorem shadowsocksFields_withoutSNI_iff {other : ShadowsocksServer} :
    shadowsocksFields (shadowsocksServerOutbound other remark stream.withoutSNI)
        = shadowsocksFields (shadowsocksServerOutbound server remark stream) ↔
      other = server ∧ stream.withoutSNI = stream := by
  cases stream with
  | tcp => simp [shadowsocksFields, shadowsocksServerOutbound, ShadowsocksStream.withoutSNI]
  | ws path host tls sni =>
      have hsni : ∀ sni : Bytes, ((if tls ∨ sni ≠ [] then some ({ sni } : TLSSettings)
          else none).map TLSSettings.sni).getD [] = sni := by
        intro sni
        split
        · rfl
        · rename_i hnone
          rw [not_or, not_not] at hnone
          exact hnone.2.symm
      simp only [shadowsocksFields, shadowsocksServerOutbound, ShadowsocksStream.withoutSNI,
        ShadowsocksStream.streamSettings, Option.getD_some, hsni, ShadowsocksFields.mk.injEq,
        List.cons.injEq, and_true, true_and, ShadowsocksStream.ws.injEq]

theorem headOutbound_shadowsocksLink (hplain : ShadowsocksPlain server remark stream)
    (hhost : ∀ c ∈ coerce server.address, Url.isHostByte c = true) (hpercent : 37 ∉ coerce server.address)
    (hopen : (coerce server.address).head? ≠ some 91) (args : ParseArgs) :
    headOutbound (parseShadowsocks (shadowsocksLink server remark stream) args)
      = if AuthReadable server.readBack.auth then
          some (shadowsocksServerOutbound server.readBack remark stream.withoutSNI)
        else none := by
  have hparse : Url.parse (shadowsocksLink server remark stream) = .ok (linkURL
      (Base64.urlEncoding.encode server.readBack.auth) (coerce server.address) server.port
      (pluginQuery stream) remark) :=
    parse_linkURL (by decide) (List.all_eq_true.mp (by decide)) (encode_isRawUserinfoByte _) hhost hpercent hopen
      server.port (pluginQuery stream) remark
  split
  · rename_i hreadable
    have hcolon : 58 ∉ coerce server.method := fun hmem =>
      hplain.method.2 (isAscii_imp_mem_of_mem_coerce hmem (by decide))
    have hstream : linkStreamSettings (shadowsocksLink server remark stream) (linkURL
        (Base64.urlEncoding.encode server.readBack.auth) (coerce server.address) server.port
        (pluginQuery stream) remark) = stream.withoutSNI.streamSettings :=
      linkStreamSettings_eq hplain.texts (fun h => contains_plugin h _)
        fun key => param_linkURL (pluginQuery_distinct stream) key
    have hport : mustParsePort (linkURL (Base64.urlEncoding.encode server.readBack.auth)
        (coerce server.address) server.port (pluginQuery stream) remark).port = server.port := by
      rw [mustParsePort, port_linkURL]
      simp
    have hremark : parseRemark (linkURL (Base64.urlEncoding.encode server.readBack.auth)
        (coerce server.address) server.port (pluginQuery stream) remark).fragment = remark :=
      parseRemark_eq_self_iff.mpr hplain.remark
    rw [headOutbound_parseShadowsocks hparse rfl hreadable hcolon
      (mt coerce_eq_nil_iff.mp hplain.method.1) (mt coerce_eq_nil_iff.mp hplain.password), hstream,
      shadowsocksOutbound, hostname_linkURL hopen, hport, hremark]
    rfl
  · rename_i hreadable
    exact headOutbound_parseShadowsocks_eq_none hparse (by simp [ShadowsocksServer.auth]) rfl
      hreadable args

theorem plain_address {u : Url.URL}
    (hparse : Url.parse (shadowsocksLink server remark stream) = .ok u)
    (haddress : u.hostname = server.address) :
    (∀ c ∈ coerce server.address, Url.isHostByte c = true) ∧ 37 ∉ coerce server.address ∧
      (coerce server.address).head? ≠ some 91 := by
  have hcoerce : coerce u.hostname = coerce server.address := congrArg coerce haddress
  have hbytes : ∀ c ∈ coerce server.address, Url.isHostnameByte c = true := by
    rw [← hcoerce]
    exact Url.mem_coerce_hostname hparse
  have hdelimiter : ∀ c ∈ Base64.urlEncoding.encode server.readBack.auth,
      Url.isDelimiter c = false :=
    fun c hc => (Url.isRawUserinfoByte_imp (encode_isRawUserinfoByte _ c hc)).2.2.2.1
  have hlink := hparse
  rw [shadowsocksLink, withRemark_withQuery] at hlink
  obtain ⟨-, -, -, hhost⟩ := Url.parts_of_parse_link (by decide) (List.all_eq_true.mp (by decide)) hbytes
    (formatUint_all_isDigit _) hlink hdelimiter
  obtain ⟨hpercent, hopen⟩ :=
    Url.plain_of_parseHost (formatUint_all_isDigit _) (formatUint_ne_nil _) hhost hcoerce
  have hport : u.port ≠ [] := by
    rw [Url.URL.port, Url.port_of_parseHost (formatUint_all_isDigit _) hhost hopen]
    exact formatUint_ne_nil _
  refine ⟨?_, hpercent, hopen⟩
  rw [← hcoerce] at hpercent ⊢
  exact Url.isHostByte_of_mem_hostname hparse hport hpercent

/-- **Round trip of Shadowsocks links.** An outbound is read from the link it is exported to, field by
field, exactly if its strings are UTF-8, its address needs no escaping, its method and password have
no padding or no character of the URL alphabet in their base64, and it has no server name for TLS. -/
theorem shadowsocks_roundTrip_iff (hplain : ShadowsocksPlain server remark stream)
    (args : ParseArgs) :
    (∃ uri, buildShadowsocksURI (shadowsocksServerOutbound server remark stream) = .ok uri ∧
      (headOutbound (parseShadowsocks uri args)).map shadowsocksFields
        = some (shadowsocksFields (shadowsocksServerOutbound server remark stream))) ↔
      ShadowsocksLinkable server stream := by
  have hself : server.readBack = server → coerce server.address = server.address :=
    fun h => congrArg ShadowsocksServer.address h
  constructor
  · rintro ⟨uri, hbuild, hfields⟩
    obtain rfl := Except.ok.inj (buildShadowsocksURI_eq.symm.trans hbuild)
    obtain ⟨ob, hob, hsame⟩ := Option.map_eq_some_iff.mp hfields
    obtain ⟨config, hconfig, hhead⟩ := exists_of_headOutbound hob
    obtain ⟨u, method, password, streamSettings, hu, houtbounds⟩ := parseShadowsocks_eq_ok hconfig
    rw [houtbounds] at hhead
    obtain rfl := Option.some.inj hhead
    have haddress : u.hostname = server.address := by
      have hservers := congrArg ShadowsocksFields.servers hsame
      exact congrArg ShadowsocksServer.address (List.cons.inj hservers).1
    obtain ⟨hhost, hpercent, hopen⟩ := plain_address hu haddress
    rw [headOutbound_shadowsocksLink hplain hhost hpercent hopen] at hfields
    split at hfields
    · rename_i hreadable
      obtain ⟨hback, hsni⟩ := shadowsocksFields_withoutSNI_iff.mp (Option.some.inj hfields)
      rw [hself hback] at hhost hpercent hopen
      rw [hback] at hreadable
      exact ⟨readBack_eq_self_iff.mp hback, ⟨hhost, hpercent, hopen⟩, hreadable, hsni⟩
    · cases hfields
  · rintro ⟨hutf8, ⟨hhost, hpercent, hopen⟩, hreadable, hsni⟩
    have hback := readBack_eq_self_iff.mpr hutf8
    rw [← hself hback] at hhost hpercent hopen
    refine ⟨_, buildShadowsocksURI_eq, ?_⟩
    rw [headOutbound_shadowsocksLink hplain hhost hpercent hopen, hback, if_pos hreadable, hsni]
    rfl

theorem shadowsocks_roundTrip_ws :
    let server : ShadowsocksServer :=
      { address := ascii "h", port := 443, method := ascii "aes", password := ascii "pw" }
    let ob := shadowsocksServerOutbound server (ascii "r") (.ws (ascii "/p") (ascii "x") true [])
    ∃ uri, buildShadowsocksURI ob = .ok uri ∧
      (headOutbound (parseShadowsocks uri defaultArgs)).map shadowsocksFields
        = some (shadowsocksFields ob) := by
  intro server ob
  have hplain : ShadowsocksPlain server (ascii "r") (.ws (ascii "/p") (ascii "x") true []) :=
    ⟨by decide, by decide, by decide, by decide⟩
  exact (shadowsocks_roundTrip_iff hplain defaultArgs).mpr (by decide +kernel)

/-- Padded base64 with a character that only the URL alphabet has is not read at all. -/
theorem shadowsocks_padded_rejected :
    let server : ShadowsocksServer :=
      { address := ascii "h", port := 443, method := ascii "aes-256-gcm", password := ascii "pw~1" }
    ShadowsocksPlain server [] .tcp ∧
    (buildShadowsocksURI (shadowsocksServerOutbound server [] .tcp)).toOption
      = some (ascii "ss://YWVzLTI1Ni1nY206cHd-MQ==@h:443") ∧
    (parseShadowsocks (ascii "ss://YWVzLTI1Ni1nY206cHd-MQ==@h:443") defaultArgs).isOk = false := by
  refine ⟨⟨by decide, by decide, by decide, by decide⟩, ?_, ?_⟩
  · decide +kernel
  · decide +kernel

end RoundTrip

end V2RootCore.ShareLink
