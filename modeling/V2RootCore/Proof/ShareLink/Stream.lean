import V2RootCore.Proof.Go.Query
import V2RootCore.ShareLink.Build

/-!
# Stream settings in query parameters

What a parser of VLESS and Trojan links reads from the parameters a builder has set. Parameters of the
transport and those of TLS and REALITY have different names, so each group can be read as if it had
been set alone.
-/

namespace V2RootCore.ShareLink

open Go

/-! ### Setting parameters -/

section Setting

variable {query : Url.Values} {key other : String}

theorem param_set_self (query : Url.Values) (key : String) (value : Bytes) :
    param (query.set (ascii key) value) key = value := by
  rw [param, Url.Values.get, Map.lookup_set_self]
  rfl

theorem param_setNonempty_self (h : param query key = []) (value : Bytes) :
    param (setNonempty query key value) key = value := by
  unfold setNonempty
  split
  · rename_i hvalue
    rw [h, hvalue]
  · exact param_set_self query key value

theorem orDefault_setUnless {value default : Bytes} (h : param query key = [])
    (hvalue : value ≠ []) :
    orDefault (param (setUnless query key value default) key) default = value := by
  unfold setUnless
  split
  · rename_i heq
    rw [h, heq]
    rfl
  · rw [param_setNonempty_self h, orDefault, if_neg hvalue]

def Splits (split : Bytes → List Bytes) : Prop :=
  ∀ list, (split list = [] → list = []) ∧ (split list ≠ [] → [44].intercalate (split list) = list)

theorem splits_splitOn : Splits fun list => list.splitOn 44 := by
  intro list
  refine ⟨fun h => absurd h (List.splitOn_ne_nil 44 list), fun _ => ?_⟩
  exact List.intercalate_splitOn 44

theorem splits_splitList : Splits splitList := by
  intro list
  unfold splitList
  split
  · exact ⟨fun _ => by assumption, fun h => absurd rfl h⟩
  · exact splits_splitOn list

theorem param_setList_self {split : Bytes → List Bytes} (hsplit : Splits split)
    (h : param query key = []) (list : Bytes) :
    param (setList query key (split list)) key = list := by
  unfold setList
  split
  · rename_i hnil
    rw [h, (hsplit list).1 hnil]
  · rename_i hne
    rw [param_set_self, (hsplit list).2 hne]

end Setting

/-! ### Parameters that are left alone -/

def names (keys : List String) : List Bytes := keys.map ascii

abbrev SetsOnly (keys : List String) (f : Url.Values → Url.Values) : Prop :=
  Map.SetsOnly (names keys) f

namespace SetsOnly

theorem param_eq {keys : List String} {f : Url.Values → Url.Values} (h : SetsOnly keys f)
    (query : Url.Values) (key : String) (hkey : ascii key ∉ names keys) :
    param (f query) key = param query key := by
  rw [param, Url.Values.get, h.lookup_eq query _ hkey]
  rfl

theorem set (key : String) (value : Bytes) :
    SetsOnly [key] fun query => query.set (ascii key) value :=
  Map.SetsOnly.set (ascii key) value

theorem setNonempty (key : String) (value : Bytes) :
    SetsOnly [key] fun query => ShareLink.setNonempty query key value := by
  unfold ShareLink.setNonempty
  split
  · exact Map.SetsOnly.refl _
  · exact set key value

theorem setList (key : String) (values : List Bytes) :
    SetsOnly [key] fun query => ShareLink.setList query key values := by
  unfold ShareLink.setList
  split
  · exact Map.SetsOnly.refl _
  · exact set key _

theorem setUnless (key : String) (value default : Bytes) :
    SetsOnly [key] fun query => ShareLink.setUnless query key value default := by
  unfold ShareLink.setUnless
  split
  · exact Map.SetsOnly.refl _
  · exact setNonempty key value

theorem setTCP (settings : Option TCPSettings) :
    SetsOnly ["headerType", "path", "host"] (ShareLink.setTCP settings) := by
  unfold ShareLink.setTCP
  split
  · exact Map.SetsOnly.refl _
  · rename_i header _
    split
    · exact (set "headerType" header.type).mono (by decide)
    · rename_i request _
      have hpath := (setList "path" request.path).comp (set "headerType" header.type)
      split
      · exact (set "host" _).comp hpath
      · exact hpath.mono (by decide)

theorem setWS (settings : Option WSSettings) :
    SetsOnly ["path", "host"] (ShareLink.setWS settings) := by
  cases settings with
  | none => exact Map.SetsOnly.refl _
  | some settings => exact (setNonempty "host" _).comp (setNonempty "path" settings.path)

theorem setHTTP (settings : Option HTTPSettings) :
    SetsOnly ["path", "host"] (ShareLink.setHTTP settings) := by
  cases settings with
  | none => exact Map.SetsOnly.refl _
  | some settings => exact (setList "host" settings.host).comp (setNonempty "path" settings.path)

theorem setQUIC (settings : Option QUICSettings) :
    SetsOnly ["quicSecurity", "key"] (ShareLink.setQUIC settings) := by
  cases settings with
  | none => exact Map.SetsOnly.refl _
  | some settings =>
      exact (setNonempty "key" settings.key).comp (setNonempty "quicSecurity" settings.security)

theorem setKCP (settings : Option KCPSettings) :
    SetsOnly ["seed", "headerType"] (ShareLink.setKCP settings) := by
  cases settings with
  | none => exact Map.SetsOnly.refl _
  | some settings => exact (setNonempty "headerType" _).comp (setNonempty "seed" settings.seed)

theorem setGRPC (settings : Option GRPCSettings) :
    SetsOnly ["serviceName", "mode"] (ShareLink.setGRPC settings) := by
  cases settings with
  | none => exact Map.SetsOnly.refl _
  | some settings =>
      obtain ⟨serviceName, multiMode⟩ := settings
      have hname := setNonempty "serviceName" serviceName
      cases multiMode with
      | false => exact hname.mono (by decide)
      | true => exact (set "mode" (ascii "multi")).comp hname

theorem setTLS (settings : Option TLSSettings) :
    SetsOnly ["sni", "alpn", "fp"] (ShareLink.setTLS settings) := by
  cases settings with
  | none => exact Map.SetsOnly.refl _
  | some settings =>
      exact (setNonempty "fp" settings.fingerprint).comp
        ((setList "alpn" settings.alpn).comp (setNonempty "sni" settings.sni))

theorem setReality (streamSettings : StreamSettings) :
    SetsOnly ["sni", "fp", "pbk", "sid", "spx"] (ShareLink.setReality streamSettings) := by
  unfold ShareLink.setReality
  split
  · split
    · exact Map.SetsOnly.refl _
    · rename_i settings _
      exact (setNonempty "spx" settings.spiderX).comp ((setNonempty "sid" settings.shortID).comp
        ((setNonempty "pbk" settings.publicKey).comp
          ((setNonempty "fp" settings.fingerprint).comp (setNonempty "sni" settings.sni))))
  · exact Map.SetsOnly.refl _

end SetsOnly

/-! ### Transports -/

def transportKeys : List String :=
  ["headerType", "path", "host", "quicSecurity", "key", "seed", "serviceName", "mode"]

theorem SetsOnly.setTransport (streamSettings : StreamSettings) :
    SetsOnly transportKeys (ShareLink.setTransport streamSettings) := by
  unfold ShareLink.setTransport
  split
  · exact (setWS _).mono (by decide)
  split
  · exact (setHTTP _).mono (by decide)
  split
  · exact (setQUIC _).mono (by decide)
  split
  · exact (setKCP _).mono (by decide)
  split
  · exact (setGRPC _).mono (by decide)
  · exact Map.SetsOnly.refl _

def setTransports (streamSettings : StreamSettings) (query : Url.Values) : Url.Values :=
  setTransport streamSettings (setTCP streamSettings.tcpSettings query)

theorem SetsOnly.setTransports (streamSettings : StreamSettings) :
    SetsOnly transportKeys (ShareLink.setTransports streamSettings) :=
  ((SetsOnly.setTransport streamSettings).comp (SetsOnly.setTCP streamSettings.tcpSettings)).mono
    (by decide)

section Transport

variable {query : Url.Values}

theorem param_setTCP {split : Bytes → List Bytes} (hsplit : Splits split) {path host : Bytes}
    (hpath : param query "path" = []) (hhost : param query "host" = []) :
    let set := setTCP (some { header := some { type := ascii "http", request := some {
      path := split path
      headers := if host = [] then [] else [(ascii "Host", [host])] } } }) query
    param set "headerType" = ascii "http" ∧ param set "path" = path ∧ param set "host" = host := by
  have htype := SetsOnly.set "headerType" (ascii "http")
  have hlist := SetsOnly.setList "path" (split path)
  have hset : ∀ host, SetsOnly ["host"] fun query => query.set (ascii "host") host :=
    SetsOnly.set "host"
  have hpath' : param (setList (query.set (ascii "headerType") (ascii "http")) "path" (split path))
      "path" = path := by
    refine param_setList_self hsplit ?_ path
    rw [htype.param_eq query "path" (by decide), hpath]
  have htype' : param (setList (query.set (ascii "headerType") (ascii "http")) "path" (split path))
      "headerType" = ascii "http" := by
    rw [hlist.param_eq _ "headerType" (by decide), param_set_self]
  by_cases hnil : host = []
  · subst hnil
    refine ⟨htype', hpath', ?_⟩
    change param (setList (query.set _ _) "path" (split path)) "host" = []
    rw [hlist.param_eq _ "host" (by decide), htype.param_eq query "host" (by decide), hhost]
  · simp only [setTCP, Option.bind_some, if_neg hnil, List.lookup_cons, beq_self_eq_true]
    refine ⟨?_, ?_, param_set_self _ "host" host⟩
    · rw [(hset host).param_eq _ "headerType" (by decide), htype']
    · rw [(hset host).param_eq _ "path" (by decide), hpath']

theorem param_setNonempty_pair {first second : String} (hne : ascii first ∉ names [second])
    (hne' : ascii second ∉ names [first]) (hfirst : param query first = [])
    (hsecond : param query second = []) (value value' : Bytes) :
    let set := setNonempty (setNonempty query first value) second value'
    param set first = value ∧ param set second = value' := by
  refine ⟨?_, param_setNonempty_self ?_ value'⟩
  · rw [(SetsOnly.setNonempty second value').param_eq _ first hne, param_setNonempty_self hfirst]
  · rw [(SetsOnly.setNonempty first value).param_eq _ second hne', hsecond]

theorem param_setWS {path host : Bytes} (hpath : param query "path" = [])
    (hhost : param query "host" = []) :
    let set := setWS (some {
      path := path, headers := if host = [] then [] else [(ascii "Host", host)] }) query
    param set "path" = path ∧ param set "host" = host := by
  have hlookup : ((if host = [] then [] else [(ascii "Host", host)] : List (Bytes × Bytes)).lookup
      (ascii "Host")).getD [] = host := by
    by_cases hnil : host = []
    · simp [hnil]
    · simp [hnil]
  simp only [setWS, hlookup]
  exact param_setNonempty_pair (by decide) (by decide) hpath hhost path host

theorem param_setHTTP {path host : Bytes} (hpath : param query "path" = [])
    (hhost : param query "host" = []) :
    let set := setHTTP (some { path, host := splitList host }) query
    param set "path" = path ∧ param set "host" = host := by
  refine ⟨?_, param_setList_self splits_splitList ?_ host⟩
  · change param (setList _ "host" (splitList host)) "path" = path
    rw [(SetsOnly.setList "host" (splitList host)).param_eq _ "path" (by decide),
      param_setNonempty_self hpath]
  · rw [(SetsOnly.setNonempty "path" path).param_eq _ "host" (by decide), hhost]

theorem param_setQUIC (settings : QUICSettings) (hsecurity : param query "quicSecurity" = [])
    (hkey : param query "key" = []) :
    let set := setQUIC (some settings) query
    param set "quicSecurity" = settings.security ∧ param set "key" = settings.key :=
  param_setNonempty_pair (by decide) (by decide) hsecurity hkey settings.security settings.key

theorem param_setKCP {seed headerType : Bytes} (hseed : param query "seed" = [])
    (htype : param query "headerType" = []) :
    let set := setKCP (some { seed, header := some { type := headerType } }) query
    param set "seed" = seed ∧ param set "headerType" = headerType :=
  param_setNonempty_pair (by decide) (by decide) hseed htype seed headerType

theorem param_setGRPC {serviceName mode : Bytes} (hname : param query "serviceName" = [])
    (hmode : param query "mode" = []) :
    let set := setGRPC (some {
      serviceName := serviceName, multiMode := mode = ascii "multi" }) query
    param set "serviceName" = serviceName ∧
      (param set "mode" = ascii "multi" ↔ mode = ascii "multi") := by
  have hself : param (setNonempty query "serviceName" serviceName) "serviceName" = serviceName :=
    param_setNonempty_self hname serviceName
  by_cases hmulti : mode = ascii "multi"
  · simp only [setGRPC, hmulti, decide_true, if_true, iff_true]
    refine ⟨?_, param_set_self _ "mode" _⟩
    rw [(SetsOnly.set "mode" (ascii "multi")).param_eq _ "serviceName" (by decide), hself]
  · simp only [setGRPC, hmulti, decide_false, Bool.false_eq_true, if_false, iff_false]
    refine ⟨hself, ?_⟩
    rw [(SetsOnly.setNonempty "serviceName" serviceName).param_eq _ "mode" (by decide), hmode]
    decide

variable {split : Bytes → List Bytes} {get read : String → Bytes} {network security : Bytes}

theorem transportSettings_tcp :
    transportSettings split get { network := ascii "tcp", security } =
      if get "headerType" = ascii "http" then
        { network := ascii "tcp", security, tcpSettings := some {
          header := some { type := ascii "http", request := some {
            path := split (get "path")
            headers := if get "host" = [] then [] else [(ascii "Host", [get "host"])] } } } }
      else { network := ascii "tcp", security } := rfl

theorem transportSettings_ws :
    transportSettings split get { network := ascii "ws", security } =
      { network := ascii "ws", security, wsSettings := some {
        path := get "path"
        headers := if get "host" = [] then [] else [(ascii "Host", get "host")] } } := rfl

theorem transportSettings_http :
    transportSettings split get { network := ascii "http", security } =
      { network := ascii "http", security, httpSettings := some {
        path := get "path", host := splitList (get "host") } } := rfl

theorem transportSettings_quic :
    transportSettings split get { network := ascii "quic", security } =
      { network := ascii "quic", security, quicSettings := some {
        security := get "quicSecurity"
        key := get "key"
        header := some { type := get "headerType" } } } := rfl

theorem transportSettings_kcp :
    transportSettings split get { network := ascii "kcp", security } =
      { network := ascii "kcp", security, kcpSettings := some {
        seed := get "seed", header := some { type := get "headerType" } } } := rfl

theorem transportSettings_grpc :
    transportSettings split get { network := ascii "grpc", security } =
      { network := ascii "grpc", security, grpcSettings := some {
        serviceName := get "serviceName", multiMode := get "mode" = ascii "multi" } } := rfl

theorem read_pair {set : Url.Values} {first second : String}
    (hread : ∀ key ∈ transportKeys, read key = param set key) (hfirst : first ∈ transportKeys)
    (hsecond : second ∈ transportKeys) (h : param set first = get first ∧ param set second = get second) :
    read first = get first ∧ read second = get second :=
  ⟨(hread first hfirst).trans h.1, (hread second hsecond).trans h.2⟩

section Read

variable (hquery : ∀ key ∈ transportKeys, param query key = [])
  (hread : ∀ key ∈ transportKeys, read key = param (setTransports
    (transportSettings split get { network, security }) query) key)

include hquery hread

theorem transportSettings_read_tcp (hsplit : Splits split) (hnetwork : network = ascii "tcp") :
    transportSettings split read { network, security }
      = transportSettings split get { network, security } := by
  subst hnetwork
  simp only [transportSettings_tcp] at hread ⊢
  by_cases hhttp : get "headerType" = ascii "http"
  · simp only [if_pos hhttp] at hread ⊢
    obtain ⟨htype, hpath, hhost⟩ := @param_setTCP query split hsplit (get "path") (get "host")
      (hquery "path" (by decide)) (hquery "host" (by decide))
    have hpath' : read "path" = get "path" := (hread "path" (by decide)).trans hpath
    have hhost' : read "host" = get "host" := (hread "host" (by decide)).trans hhost
    rw [if_pos ((hread "headerType" (by decide)).trans htype), hpath', hhost']
  · simp only [if_neg hhttp] at hread ⊢
    have htype : read "headerType" = [] :=
      (hread "headerType" (by decide)).trans (hquery "headerType" (by decide))
    rw [if_neg (by rw [htype]; decide)]

theorem transportSettings_read_ws (hnetwork : network = ascii "ws") :
    transportSettings split read { network, security }
      = transportSettings split get { network, security } := by
  subst hnetwork
  simp only [transportSettings_ws] at hread ⊢
  obtain ⟨hpath, hhost⟩ := read_pair hread (by decide) (by decide)
    (param_setWS (hquery "path" (by decide)) (hquery "host" (by decide)))
  rw [hpath, hhost]

theorem transportSettings_read_http (hnetwork : network = ascii "http") :
    transportSettings split read { network, security }
      = transportSettings split get { network, security } := by
  subst hnetwork
  simp only [transportSettings_http] at hread ⊢
  obtain ⟨hpath, hhost⟩ := read_pair hread (by decide) (by decide)
    (param_setHTTP (hquery "path" (by decide)) (hquery "host" (by decide)))
  rw [hpath, hhost]

theorem transportSettings_read_quic (hnetwork : network = ascii "quic") :
    transportSettings split read { network, security }
        = transportSettings split get { network, security }
      ↔ get "headerType" = [] := by
  subst hnetwork
  simp only [transportSettings_quic] at hread ⊢
  obtain ⟨hsecurity, hkey⟩ := read_pair hread (by decide) (by decide)
    (param_setQUIC _ (hquery "quicSecurity" (by decide)) (hquery "key" (by decide)))
  have htype : read "headerType" = [] := by
    refine (hread "headerType" (by decide)).trans ?_
    refine Eq.trans ?_ (hquery "headerType" (by decide))
    exact (SetsOnly.setQUIC (some _)).param_eq query "headerType" (by decide)
  rw [hsecurity, hkey, htype]
  simp [eq_comm]

theorem transportSettings_read_kcp (hnetwork : network = ascii "kcp") :
    transportSettings split read { network, security }
      = transportSettings split get { network, security } := by
  subst hnetwork
  simp only [transportSettings_kcp] at hread ⊢
  obtain ⟨hseed, htype⟩ := read_pair hread (by decide) (by decide)
    (param_setKCP (hquery "seed" (by decide)) (hquery "headerType" (by decide)))
  rw [hseed, htype]

theorem transportSettings_read_grpc (hnetwork : network = ascii "grpc") :
    transportSettings split read { network, security }
      = transportSettings split get { network, security } := by
  subst hnetwork
  simp only [transportSettings_grpc] at hread ⊢
  obtain ⟨hname, hmode⟩ := @param_setGRPC query (get "serviceName") (get "mode")
    (hquery "serviceName" (by decide)) (hquery "mode" (by decide))
  have hname' : read "serviceName" = get "serviceName" :=
    (hread "serviceName" (by decide)).trans hname
  have hmode' : read "mode" = ascii "multi" ↔ get "mode" = ascii "multi" := by
    rw [hread "mode" (by decide)]
    exact hmode
  rw [hname', decide_eq_decide.mpr hmode']

/-- **The settings of a transport survive in its parameters**, except for the header of QUIC. -/
theorem transportSettings_read (hsplit : Splits split) :
    transportSettings split read { network, security }
        = transportSettings split get { network, security }
      ↔ (network = ascii "quic" → get "headerType" = []) := by
  by_cases hquic : network = ascii "quic"
  · rw [transportSettings_read_quic hquery hread hquic]
    exact ⟨fun h _ => h, fun h => h hquic⟩
  refine iff_of_true ?_ fun h => absurd h hquic
  by_cases htcp : network = ascii "tcp"
  · exact transportSettings_read_tcp hquery hread hsplit htcp
  by_cases hws : network = ascii "ws"
  · exact transportSettings_read_ws hquery hread hws
  by_cases hhttp : network = ascii "http"
  · exact transportSettings_read_http hquery hread hhttp
  by_cases hkcp : network = ascii "kcp"
  · exact transportSettings_read_kcp hquery hread hkcp
  by_cases hgrpc : network = ascii "grpc"
  · exact transportSettings_read_grpc hquery hread hgrpc
  · simp [transportSettings, htcp, hws, hhttp, hquic, hkcp, hgrpc]

end Read

theorem setTransports_eq {streamSettings : StreamSettings}
    (heq : streamSettings = securitySettings get (transportSettings split get {
      network := network, security })) (query : Url.Values) :
    setGRPC streamSettings.grpcSettings (setKCP streamSettings.kcpSettings
      (setQUIC streamSettings.quicSettings (setHTTP streamSettings.httpSettings
        (setWS streamSettings.wsSettings (setTCP streamSettings.tcpSettings query)))))
      = setTransports streamSettings query := by
  subst heq
  by_cases htcp : network = ascii "tcp"
  · subst htcp
    rw [transportSettings_tcp]
    split
    · rfl
    · rfl
  by_cases hws : network = ascii "ws"
  · subst hws
    rfl
  by_cases hhttp : network = ascii "http"
  · subst hhttp
    rfl
  by_cases hquic : network = ascii "quic"
  · subst hquic
    rfl
  by_cases hkcp : network = ascii "kcp"
  · subst hkcp
    rfl
  by_cases hgrpc : network = ascii "grpc"
  · subst hgrpc
    rfl
  · simp [transportSettings, securitySettings, setTransports, setTransport, setGRPC, setKCP, setQUIC,
      setHTTP, setWS, htcp, hws, hhttp, hquic, hkcp, hgrpc]

end Transport

/-! ### TLS and REALITY -/

def securityKeys : List String := ["sni", "alpn", "fp", "pbk", "sid", "spx"]

def setSecurity (streamSettings : StreamSettings) (query : Url.Values) : Url.Values :=
  setReality streamSettings (setTLS streamSettings.tlsSettings query)

theorem SetsOnly.setSecurity (streamSettings : StreamSettings) :
    SetsOnly securityKeys (ShareLink.setSecurity streamSettings) :=
  ((SetsOnly.setReality streamSettings).comp (SetsOnly.setTLS streamSettings.tlsSettings)).mono
    (by decide)

theorem transportKeys_disjoint : ∀ key ∈ transportKeys, ascii key ∉ names securityKeys := by
  decide

theorem securityKeys_disjoint : ∀ key ∈ securityKeys, ascii key ∉ names transportKeys := by
  decide

section Security

variable {query : Url.Values} {get read : String → Bytes} {streamSettings : StreamSettings}

theorem param_setTLS {sni alpn fingerprint : Bytes} {allowInsecure : Bool}
    (hquery : ∀ key ∈ securityKeys, param query key = []) :
    let set := setTLS (some {
      sni := sni
      alpn := splitList alpn
      fingerprint := fingerprint
      allowInsecure := allowInsecure }) query
    param set "sni" = sni ∧ param set "alpn" = alpn ∧ param set "fp" = fingerprint := by
  have hsni := SetsOnly.setNonempty "sni" sni
  have halpn := SetsOnly.setList "alpn" (splitList alpn)
  have hfp := SetsOnly.setNonempty "fp" fingerprint
  simp only [setTLS]
  refine ⟨?_, ?_, ?_⟩
  · rw [hfp.param_eq _ "sni" (by decide), halpn.param_eq _ "sni" (by decide),
      param_setNonempty_self (hquery "sni" (by decide))]
  · rw [hfp.param_eq _ "alpn" (by decide), param_setList_self splits_splitList]
    rw [hsni.param_eq _ "alpn" (by decide), hquery "alpn" (by decide)]
  · refine param_setNonempty_self ?_ fingerprint
    rw [halpn.param_eq _ "fp" (by decide), hsni.param_eq _ "fp" (by decide),
      hquery "fp" (by decide)]

theorem param_setNonempty_same {key : String} {value : Bytes} (h : param query key = value) :
    param (setNonempty query key value) key = value := by
  unfold setNonempty
  split
  · exact h
  · exact param_set_self query key value

theorem param_setReality {settings : RealitySettings} (hsecurity : streamSettings.security = ascii "reality")
    (hsettings : streamSettings.realitySettings = some settings)
    (hsni : param query "sni" = settings.sni) (hfp : param query "fp" = settings.fingerprint)
    (hpbk : param query "pbk" = []) (hsid : param query "sid" = []) (hspx : param query "spx" = []) :
    let set := setReality streamSettings query
    param set "sni" = settings.sni ∧ param set "fp" = settings.fingerprint ∧
      param set "pbk" = settings.publicKey ∧ param set "sid" = settings.shortID ∧
      param set "spx" = settings.spiderX := by
  have hsni' := SetsOnly.setNonempty "sni" settings.sni
  have hfp' := SetsOnly.setNonempty "fp" settings.fingerprint
  have hpbk' := SetsOnly.setNonempty "pbk" settings.publicKey
  have hsid' := SetsOnly.setNonempty "sid" settings.shortID
  have hspx' := SetsOnly.setNonempty "spx" settings.spiderX
  simp only [setReality, if_pos hsecurity, hsettings]
  refine ⟨?_, ?_, ?_, ?_, ?_⟩
  · rw [hspx'.param_eq _ "sni" (by decide), hsid'.param_eq _ "sni" (by decide),
      hpbk'.param_eq _ "sni" (by decide), hfp'.param_eq _ "sni" (by decide),
      param_setNonempty_same hsni]
  · rw [hspx'.param_eq _ "fp" (by decide), hsid'.param_eq _ "fp" (by decide),
      hpbk'.param_eq _ "fp" (by decide)]
    refine param_setNonempty_same ?_
    rw [hsni'.param_eq _ "fp" (by decide), hfp]
  · rw [hspx'.param_eq _ "pbk" (by decide), hsid'.param_eq _ "pbk" (by decide)]
    refine param_setNonempty_self ?_ _
    rw [hfp'.param_eq _ "pbk" (by decide), hsni'.param_eq _ "pbk" (by decide), hpbk]
  · rw [hspx'.param_eq _ "sid" (by decide)]
    refine param_setNonempty_self ?_ _
    rw [hpbk'.param_eq _ "sid" (by decide), hfp'.param_eq _ "sid" (by decide),
      hsni'.param_eq _ "sid" (by decide), hsid]
  · refine param_setNonempty_self ?_ _
    rw [hsid'.param_eq _ "spx" (by decide), hpbk'.param_eq _ "spx" (by decide),
      hfp'.param_eq _ "spx" (by decide), hsni'.param_eq _ "spx" (by decide), hspx]

theorem setSecurity_of_tls (hsecurity : streamSettings.security = ascii "tls") (query : Url.Values) :
    setSecurity (securitySettings get streamSettings) query = setTLS (some (tlsSettings get)) query := by
  have htls : streamSettings.security = ascii "tls" ∨ streamSettings.security = ascii "reality" :=
    Or.inl hsecurity
  have hreality : ¬ streamSettings.security = ascii "reality" := by
    rw [hsecurity]
    decide
  simp only [setSecurity, setReality, securitySettings, if_pos htls, if_neg hreality]

variable (hquery : ∀ key ∈ securityKeys, param query key = [])
  (hread : ∀ key ∈ securityKeys,
    read key = param (setSecurity (securitySettings get streamSettings) query) key)

include hquery hread

theorem read_security
    (hsecurity : streamSettings.security = ascii "tls" ∨ streamSettings.security = ascii "reality") :
    read "sni" = get "sni" ∧ read "alpn" = get "alpn" ∧ read "fp" = get "fp" ∧
      (streamSettings.security = ascii "reality" →
        read "pbk" = get "pbk" ∧ read "sid" = get "sid" ∧ read "spx" = get "spx") := by
  obtain ⟨hsni, halpn, hfp⟩ := @param_setTLS query (get "sni") (get "alpn") (get "fp")
    (get "allowInsecure" = ascii "1") hquery
  by_cases hreality : streamSettings.security = ascii "reality"
  · have hsettings : (securitySettings get streamSettings).tlsSettings = some (tlsSettings get) :=
      if_pos hsecurity
    have hrest : ∀ key, ascii key ∉ names ["sni", "alpn", "fp"] →
        param (setTLS (some (tlsSettings get)) query) key = param query key :=
      (SetsOnly.setTLS (some (tlsSettings get))).param_eq query
    obtain ⟨hsni', hfp', hpbk, hsid, hspx⟩ := param_setReality
      (show (securitySettings get streamSettings).security = ascii "reality" from hreality)
      (show (securitySettings get streamSettings).realitySettings = some (realitySettings get) from
        if_pos hreality)
      hsni hfp ((hrest "pbk" (by decide)).trans (hquery "pbk" (by decide)))
      ((hrest "sid" (by decide)).trans (hquery "sid" (by decide)))
      ((hrest "spx" (by decide)).trans (hquery "spx" (by decide)))
    have halpn' : param (setReality (securitySettings get streamSettings)
        (setTLS (some (tlsSettings get)) query)) "alpn" = get "alpn" := by
      rw [(SetsOnly.setReality _).param_eq _ "alpn" (by decide)]
      exact halpn
    simp only [setSecurity, hsettings] at hread
    rw [hread "sni" (by decide), hread "alpn" (by decide), hread "fp" (by decide),
      hread "pbk" (by decide), hread "sid" (by decide), hread "spx" (by decide)]
    exact ⟨hsni', halpn', hfp', fun _ => ⟨hpbk, hsid, hspx⟩⟩
  · have htls := hsecurity.resolve_right hreality
    simp only [setSecurity_of_tls htls] at hread
    rw [hread "sni" (by decide), hread "alpn" (by decide), hread "fp" (by decide)]
    exact ⟨hsni, halpn, hfp, fun h => absurd h hreality⟩

/-- **The settings of TLS and REALITY survive in their parameters**, except that certificates are
checked afterwards. -/
theorem securitySettings_read (hinsecure : read "allowInsecure" = []) :
    securitySettings read streamSettings = securitySettings get streamSettings ↔
      (streamSettings.security = ascii "tls" ∨ streamSettings.security = ascii "reality" →
        get "allowInsecure" ≠ ascii "1") := by
  by_cases hsecurity : streamSettings.security = ascii "tls" ∨ streamSettings.security = ascii "reality"
  · obtain ⟨hsni, halpn, hfp, hreality⟩ := read_security hquery hread hsecurity
    have hchecked : ¬ ([] : Bytes) = ascii "1" := by decide
    have htls : tlsSettings read = tlsSettings get ↔ get "allowInsecure" ≠ ascii "1" := by
      simp only [tlsSettings, hsni, halpn, hfp, hinsecure, hchecked, decide_false,
        TLSSettings.mk.injEq, true_and, ne_eq]
      rw [eq_comm, decide_eq_false_iff_not]
    have hrealityEq : streamSettings.security = ascii "reality" →
        realitySettings read = realitySettings get := by
      intro h
      obtain ⟨hpbk, hsid, hspx⟩ := hreality h
      simp only [realitySettings, tlsSettings, hsni, hfp, hpbk, hsid, hspx]
    simp only [securitySettings, if_pos hsecurity, StreamSettings.mk.injEq, true_and, and_true,
      Option.some.injEq, htls]
    constructor
    · exact fun h _ => h.1
    · intro h
      refine ⟨h hsecurity, ?_⟩
      split
      · rename_i hr
        rw [hrealityEq hr]
      · rfl
  · refine iff_of_true ?_ fun h => absurd h hsecurity
    have hreality : ¬ streamSettings.security = ascii "reality" := fun h => hsecurity (Or.inr h)
    simp only [securitySettings, if_neg hsecurity, if_neg hreality]

end Security

/-! ### Stream settings -/

/-- Stream settings that a link can hold: the server's certificate is checked, and QUIC has no
header. -/
structure StreamSettings.Expressible (streamSettings : StreamSettings) : Prop where
  tls : ∀ settings ∈ streamSettings.tlsSettings, settings.allowInsecure = false
  quic : ∀ settings ∈ streamSettings.quicSettings, ∀ header ∈ settings.header, header.type = []

instance (streamSettings : StreamSettings) : Decidable streamSettings.Expressible :=
  decidable_of_iff ((∀ settings ∈ streamSettings.tlsSettings, settings.allowInsecure = false) ∧
      ∀ settings ∈ streamSettings.quicSettings, ∀ header ∈ settings.header, header.type = [])
    ⟨fun h => ⟨h.1, h.2⟩, fun h => ⟨h.1, h.2⟩⟩

section Parse

variable {defaultSecurity network security : Bytes} {split : Bytes → List Bytes} {missingKey : String}
  {get read : String → Bytes} {streamSettings : StreamSettings}

theorem transportSettings_base (split : Bytes → List Bytes) (get : String → Bytes)
    (base : StreamSettings) :
    (transportSettings split get base).network = base.network ∧
      (transportSettings split get base).security = base.security ∧
      (transportSettings split get base).tlsSettings = base.tlsSettings ∧
      (transportSettings split get base).realitySettings = base.realitySettings := by
  simp only [transportSettings, apply_ite StreamSettings.network, apply_ite StreamSettings.security,
    apply_ite StreamSettings.tlsSettings, apply_ite StreamSettings.realitySettings, ite_self, and_self]

theorem quicSettings_transportSettings :
    (transportSettings split get { network, security }).quicSettings
      = if network = ascii "quic" then some {
          security := get "quicSecurity"
          key := get "key"
          header := some { type := get "headerType" } }
        else none := by
  by_cases hquic : network = ascii "quic"
  · subst hquic
    rfl
  · simp only [transportSettings, apply_ite StreamSettings.quicSettings, if_neg hquic, ite_self]

theorem parseStreamSettings_eq_ok
    (h : parseStreamSettings defaultSecurity split missingKey get = .ok streamSettings) :
    (streamSettings.security = ascii "reality" → get "pbk" ≠ []) ∧
      streamSettings.security = orDefault (get "security") defaultSecurity ∧
      streamSettings.network = orDefault (get "type") (ascii "tcp") ∧
      streamSettings = securitySettings get (transportSettings split get {
        network := streamSettings.network, security := streamSettings.security }) := by
  unfold parseStreamSettings at h
  simp only at h
  split at h
  · cases h
  · rename_i hkey
    obtain rfl := Except.ok.inj h
    set base : StreamSettings := {
      network := orDefault (get "type") (ascii "tcp")
      security := orDefault (get "security") defaultSecurity }
    obtain ⟨hnetwork, hsecurity, -⟩ := transportSettings_base split get base
    have hnetwork' : (securitySettings get (transportSettings split get base)).network
        = base.network := hnetwork
    have hsecurity' : (securitySettings get (transportSettings split get base)).security
        = base.security := hsecurity
    rw [hnetwork', hsecurity']
    exact ⟨fun hreality hpbk => hkey ⟨hreality, hpbk⟩, rfl, rfl, rfl⟩

theorem securitySettings_eq_iff {before after : StreamSettings}
    (hbefore : before.tlsSettings = none ∧ before.realitySettings = none)
    (hafter : after.tlsSettings = none ∧ after.realitySettings = none) :
    securitySettings read after = securitySettings get before ↔
      after = before ∧ securitySettings read before = securitySettings get before := by
  constructor
  · intro h
    have hstrip : ∀ (get : String → Bytes) {base : StreamSettings}, base.tlsSettings = none →
        base.realitySettings = none →
        { securitySettings get base with tlsSettings := none, realitySettings := none } = base := by
      intro get base htls hreality
      cases base
      simp_all [securitySettings]
    have heq : after = before := by
      rw [← hstrip read hafter.1 hafter.2, h, hstrip get hbefore.1 hbefore.2]
    exact ⟨heq, heq ▸ h⟩
  · rintro ⟨rfl, h⟩
    exact h

theorem expressible_iff (heq : streamSettings = securitySettings get (transportSettings split get {
      network := network, security })) :
    streamSettings.Expressible ↔ (network = ascii "quic" → get "headerType" = []) ∧
      (security = ascii "tls" ∨ security = ascii "reality" → get "allowInsecure" ≠ ascii "1") := by
  obtain ⟨-, hsecurity, -⟩ := transportSettings_base split get {
    network := network, security }
  have htls : streamSettings.tlsSettings =
      if security = ascii "tls" ∨ security = ascii "reality" then some (tlsSettings get) else none := by
    rw [heq, securitySettings, hsecurity]
  have hquic : streamSettings.quicSettings =
      if network = ascii "quic" then some {
        security := get "quicSecurity", key := get "key", header := some { type := get "headerType" } }
      else none := by
    rw [heq]
    exact quicSettings_transportSettings
  constructor
  · rintro ⟨hchecked, hheader⟩
    refine ⟨?_, ?_⟩
    · intro hnetwork
      rw [hquic, if_pos hnetwork] at hheader
      exact hheader _ rfl _ rfl
    · intro hsecured
      rw [htls, if_pos hsecured] at hchecked
      exact of_decide_eq_false (hchecked _ rfl)
  · rintro ⟨hheader, hchecked⟩
    constructor
    · intro settings hsettings
      rw [htls] at hsettings
      split at hsettings
      · rename_i hsecured
        obtain rfl := Option.some.inj hsettings
        exact decide_eq_false (hchecked hsecured)
      · cases hsettings
    · intro settings hsettings header hmem
      rw [hquic] at hsettings
      split at hsettings
      · rename_i hnetwork
        obtain rfl := Option.some.inj hsettings
        obtain rfl := Option.some.inj hmem
        exact hheader hnetwork
      · cases hsettings

/-- **Stream settings survive in the parameters of a link** exactly if a link can hold them. -/
theorem parseStreamSettings_read (hsplit : Splits split)
    (hparse : parseStreamSettings defaultSecurity split missingKey get = .ok streamSettings)
    (hsecurity : orDefault (read "security") defaultSecurity = streamSettings.security)
    (hnetwork : orDefault (read "type") (ascii "tcp") = streamSettings.network)
    (query query' : Url.Values) (hquery : ∀ key ∈ transportKeys, param query key = [])
    (hread : ∀ key ∈ transportKeys, read key = param (setTransports streamSettings query) key)
    (hquery' : ∀ key ∈ securityKeys, param query' key = [])
    (hread' : ∀ key ∈ securityKeys, read key = param (setSecurity streamSettings query') key)
    (hinsecure : read "allowInsecure" = []) :
    parseStreamSettings defaultSecurity split missingKey read = .ok streamSettings ↔
      streamSettings.Expressible := by
  obtain ⟨hkey, -, -, heq⟩ := parseStreamSettings_eq_ok hparse
  set base : StreamSettings := {
    network := streamSettings.network, security := streamSettings.security } with hbase
  obtain ⟨-, hbaseSecurity, htls, hreality⟩ := transportSettings_base split get base
  obtain ⟨-, -, htls', hreality'⟩ := transportSettings_base split read base
  have hread₁ : ∀ key ∈ transportKeys,
      read key = param (setTransports (transportSettings split get base) query) key := by
    intro key hmem
    rw [hread key hmem, heq]
    rfl
  have hread₂ : ∀ key ∈ securityKeys, read key = param (setSecurity
      (securitySettings get (transportSettings split get base)) query') key := by
    rw [← heq]
    exact hread'
  have hkey' : ¬ (streamSettings.security = ascii "reality" ∧ read "pbk" = []) := by
    rintro ⟨hsecured, hnil⟩
    have hsecured' := hbaseSecurity.trans hsecured
    obtain ⟨-, -, -, hpbk⟩ := read_security hquery' hread₂ (Or.inr hsecured')
    exact hkey hsecured ((hpbk hsecured').1.symm.trans hnil)
  simp only [parseStreamSettings, hsecurity, hnetwork, if_neg hkey', Except.ok.injEq]
  calc securitySettings read (transportSettings split read base) = streamSettings
      ↔ securitySettings read (transportSettings split read base)
          = securitySettings get (transportSettings split get base) := by rw [← heq]
    _ ↔ transportSettings split read base = transportSettings split get base ∧
          securitySettings read (transportSettings split get base)
            = securitySettings get (transportSettings split get base) :=
        securitySettings_eq_iff ⟨htls, hreality⟩ ⟨htls', hreality'⟩
    _ ↔ (streamSettings.network = ascii "quic" → get "headerType" = []) ∧
          (streamSettings.security = ascii "tls" ∨ streamSettings.security = ascii "reality" →
            get "allowInsecure" ≠ ascii "1") := by
        rw [transportSettings_read hquery hread₁ hsplit,
          securitySettings_read hquery' hread₂ hinsecure, hbaseSecurity]
    _ ↔ streamSettings.Expressible := (expressible_iff heq).symm

/-- The parameters of the transport and those of its security may be set in either order. -/
theorem parseStreamSettings_set (hsplit : Splits split)
    (hparse : parseStreamSettings defaultSecurity split missingKey get = .ok streamSettings)
    {base query : Url.Values}
    (hquery : query = setTransports streamSettings (setSecurity streamSettings base) ∨
      query = setSecurity streamSettings (setTransports streamSettings base))
    (hbase : ∀ key ∈ "allowInsecure" :: (transportKeys ++ securityKeys), param base key = [])
    (hsecurity : orDefault (param query "security") defaultSecurity = streamSettings.security)
    (hnetwork : orDefault (param query "type") (ascii "tcp") = streamSettings.network) :
    parseStreamSettings defaultSecurity split missingKey (param query) = .ok streamSettings ↔
      streamSettings.Expressible := by
  have htransport := SetsOnly.setTransports streamSettings
  have hsecured := SetsOnly.setSecurity streamSettings
  obtain ⟨hinsecure, hfresh⟩ := List.forall_mem_cons.mp hbase
  obtain ⟨hfresh, hfresh'⟩ := List.forall_mem_append.mp hfresh
  obtain rfl | rfl := hquery
  · refine parseStreamSettings_read hsplit hparse hsecurity hnetwork (setSecurity streamSettings base) base
      (fun key hkey => ?_) (fun _ _ => rfl) hfresh' (fun key hkey => ?_) ?_
    · rw [hsecured.param_eq _ key (transportKeys_disjoint key hkey), hfresh key hkey]
    · exact htransport.param_eq _ key (securityKeys_disjoint key hkey)
    · rw [htransport.param_eq _ _ (by decide), hsecured.param_eq _ _ (by decide), hinsecure]
  · refine parseStreamSettings_read hsplit hparse hsecurity hnetwork base (setTransports streamSettings base)
      hfresh (fun key hkey => ?_) (fun key hkey => ?_) (fun _ _ => rfl) ?_
    · exact hsecured.param_eq _ key (transportKeys_disjoint key hkey)
    · rw [htransport.param_eq _ key (securityKeys_disjoint key hkey), hfresh' key hkey]
    · rw [hsecured.param_eq _ _ (by decide), htransport.param_eq _ _ (by decide), hinsecure]

end Parse

end V2RootCore.ShareLink
