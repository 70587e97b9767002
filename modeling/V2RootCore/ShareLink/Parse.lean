import V2RootCore.Go.Base64
import V2RootCore.ShareLink.Config

/-!
# Parsing share links

`parseVless`, `parseTrojan`, `parseVmess` and `parseShadowsocks`: the configuration of a link, with
the link's server as its first outbound.
-/

namespace V2RootCore.ShareLink

open Go

/-! ### Inbounds, DNS and routing -/

def createDefaultInbounds (httpPort socksPort : UInt16) : List InboundConfig :=
  let sniffing : SniffingSettings :=
    { enabled := true, destOverride := [ascii "http", ascii "tls", ascii "quic"] }
  [{ port := httpPort, protocol := ascii "http", settings := [], sniffing := some sniffing },
    { port := socksPort, protocol := ascii "socks", settings := [(ascii "udp", .bool true)]
      sniffing := some sniffing }]

/-- The inbounds of a Shadowsocks configuration, which do not sniff. -/
def shadowsocksInbounds (httpPort socksPort : UInt16) : List InboundConfig :=
  [{ port := httpPort, protocol := ascii "http", settings := [] },
    { port := socksPort, protocol := ascii "socks", settings := [(ascii "udp", .bool true)] }]

def defaultDNSConfigWithCustom (args : ParseArgs) : Option DNSConfig :=
  match args.customDNS, args.geositeDNSRule with
  | none, none => none
  | some customDNS, none => some { customDNS with hosts := [] }
  | customDNS, some rule =>
      let servers := (customDNS.map DNSConfig.servers).getD []
      let dnsRule := Json.object [(ascii "address", .string rule.dns),
        (ascii "domains", .array [.string (ascii "geosite:" ++ rule.domain)])]
      some {
        servers :=
          if args.geositePath ≠ [] ∧ rule.domain ≠ [] ∧ rule.dns ≠ [] ∧
              args.fileExists args.geositePath then dnsRule :: servers
          else servers
        clientIP := (customDNS.map DNSConfig.clientIP).getD []
        tag := (customDNS.map DNSConfig.tag).getD []
        strategy := (customDNS.map DNSConfig.strategy).getD [] }

def predefinedGeositeCategories : Map Bytes :=
  [("ads", "category-ads-all"), ("porn", "category-porn"), ("media", "category-media"),
    ("anticensorship", "category-anticensorship"), ("vpn", "category-vpnservices"),
    ("games", "category-games"), ("dev", "category-dev"), ("ai", "category-ai"),
    ("malware", "category-malware"), ("phishing", "category-phishing"),
    ("messaging", "category-messaging"), ("cn", "cn"), ("not-cn", "geolocation-!cn"),
    ("private", "private"), ("win-spy", "win-spy"), ("win-update", "win-update")].map
    fun (name, category) => (ascii name, ascii category)

def getOutboundTag (action customTag : Bytes) : Bytes :=
  if customTag ≠ [] then customTag
  else
    let action := toLower action
    if action = ascii "block" ∨ action = ascii "reject" then ascii "Reject"
    else if action = ascii "direct" then ascii "Direct"
    else ascii "Proxy"

def geositeRoute (rule : GeositeRule) : RoutingRule :=
  let domain := (predefinedGeositeCategories.lookup rule.domain).getD rule.domain
  { type := ascii "field"
    domain := [ascii "geosite:" ++ domain]
    outboundTag := getOutboundTag rule.action rule.outboundTag }

def geoipRoute (rule : GeoipRule) : RoutingRule :=
  { type := ascii "field"
    ip := [ascii "geoip:" ++ rule.country]
    outboundTag := getOutboundTag rule.action rule.outboundTag }

/-- The catch-all rule. -/
def defaultRoute (action : Bytes) : RoutingRule :=
  { type := ascii "field", port := ascii "0-65535", outboundTag := getOutboundTag action [] }

def buildRoutingConfig (geositeRules : List GeositeRule) (geoipRules : List GeoipRule)
    (defaultAction : Bytes) : RoutingConfig :=
  { domainStrategy := ascii "AsIs"
    rules := geositeRules.map geositeRoute ++ geoipRules.map geoipRoute ++
      if defaultAction ≠ [] then [defaultRoute defaultAction] else [] }

/-! ### Parts of a link -/

/-- The outbounds of a configuration: the link's server, and the two that every configuration has. -/
def withDefaultOutbounds (mainOutbound : OutboundConfig) : List OutboundConfig :=
  [mainOutbound, { protocol := ascii "freedom", tag := ascii "Direct" },
    { protocol := ascii "blackhole", tag := ascii "Reject" }]

def ParseArgs.output (args : ParseArgs) (inbounds : List InboundConfig)
    (outbounds : List OutboundConfig) : OutputConfig :=
  { inbounds := inbounds
    outbounds := outbounds
    dns := defaultDNSConfigWithCustom args
    routing := buildRoutingConfig args.geositeRules args.geoipRules args.routingMode }

def orDefault (value default : Bytes) : Bytes := if value = [] then default else value

/-- `strings.Split(list, ",")`, or nothing for an empty list. -/
def splitList (list : Bytes) : List Bytes := if list = [] then [] else list.splitOn 44

/-- `query.Get(key)`. -/
def param (query : Url.Values) (key : String) : Bytes := query.get (ascii key)

def parseURL (context : String) (rawURL : Bytes) : Except Error Url.URL :=
  (Url.parse rawURL).mapError fun error => .wrap (ascii context) (.url error)

/-- The port of a link, which has to be given. -/
def parsePort (context : String) (port : Bytes) : Except Error UInt16 :=
  match parseUint port 16 with
  | some n => .ok n.toUInt16
  | none => .error (.message (ascii context ++ port))

/-- `url.PathUnescape` of the fragment, whose error is ignored. -/
def parseRemark (fragment : Bytes) : Bytes :=
  match Url.pathUnescape fragment with
  | .ok remark => remark
  | .error _ => []

/-! ### Stream settings of VLESS and Trojan links -/

/-- The settings of the link's transport. The path of a TCP header is split by `splitPath`. -/
def transportSettings (splitPath : Bytes → List Bytes) (get : String → Bytes)
    (streamSettings : StreamSettings) : StreamSettings :=
  let headerType := get "headerType"
  if streamSettings.network = ascii "tcp" then
    if headerType = ascii "http" then
      { streamSettings with
        tcpSettings := some {
          header := some {
            type := ascii "http"
            request := some {
              path := splitPath (get "path")
              headers := if get "host" = [] then [] else [(ascii "Host", [get "host"])] } } } }
    else streamSettings
  else if streamSettings.network = ascii "ws" then
    { streamSettings with
      wsSettings := some {
        path := get "path"
        headers := if get "host" = [] then [] else [(ascii "Host", get "host")] } }
  else if streamSettings.network = ascii "http" then
    { streamSettings with
      httpSettings := some { path := get "path", host := splitList (get "host") } }
  else if streamSettings.network = ascii "quic" then
    { streamSettings with
      quicSettings := some {
        security := get "quicSecurity"
        key := get "key"
        header := some { type := headerType } } }
  else if streamSettings.network = ascii "kcp" then
    { streamSettings with
      kcpSettings := some { seed := get "seed", header := some { type := headerType } } }
  else if streamSettings.network = ascii "grpc" then
    { streamSettings with
      grpcSettings := some {
        serviceName := get "serviceName"
        multiMode := get "mode" = ascii "multi" } }
  else streamSettings

def tlsSettings (get : String → Bytes) : TLSSettings :=
  { sni := get "sni"
    alpn := splitList (get "alpn")
    fingerprint := get "fp"
    allowInsecure := get "allowInsecure" = ascii "1" }

/-- The server name is that of the TLS settings, which are present whenever these are. -/
def realitySettings (get : String → Bytes) : RealitySettings :=
  { sni := (tlsSettings get).sni
    fingerprint := get "fp"
    publicKey := get "pbk"
    shortID := get "sid"
    spiderX := get "spx" }

/-- The settings of TLS, and of REALITY on top of them. -/
def securitySettings (get : String → Bytes) (streamSettings : StreamSettings) : StreamSettings :=
  { streamSettings with
    tlsSettings :=
      if streamSettings.security = ascii "tls" ∨ streamSettings.security = ascii "reality" then
        some (tlsSettings get)
      else none
    realitySettings :=
      if streamSettings.security = ascii "reality" then some (realitySettings get) else none }

/-- The stream settings of a link with the query parameters `get`. VLESS and Trojan differ in the
security they assume, in the path of a TCP header and in the error for a missing public key. -/
def parseStreamSettings (defaultSecurity : Bytes) (splitPath : Bytes → List Bytes)
    (missingKey : String) (get : String → Bytes) : Except Error StreamSettings :=
  let security := orDefault (get "security") defaultSecurity
  let network := orDefault (get "type") (ascii "tcp")
  if security = ascii "reality" ∧ get "pbk" = [] then .error (.message (ascii missingKey))
  else .ok (securitySettings get
    (transportSettings splitPath get { network, security }))

def vlessStreamSettings : (String → Bytes) → Except Error StreamSettings :=
  parseStreamSettings (ascii "none") splitList "vless: reality requires 'pbk' parameter"

/-- The path of a TCP header is split even if there is none, into a single empty one. -/
def trojanStreamSettings : (String → Bytes) → Except Error StreamSettings :=
  parseStreamSettings (ascii "tls") (fun path => path.splitOn 44)
    "trojan: reality requires 'pbk' parameter"

/-! ### VLESS and Trojan -/

def vlessOutbound (parsedURL : Url.URL) (port : UInt16) (encryption : Bytes)
    (streamSettings : StreamSettings) : OutboundConfig :=
  { tag := ascii "Proxy"
    protocol := ascii "vless"
    remark := parseRemark parsedURL.fragment
    settings := .vless {
      vnext := [{
        address := parsedURL.hostname
        port := port
        users := [{
          id := parsedURL.username
          encryption := encryption
          flow := param parsedURL.query "flow" }] }] }
    streamSettings := some streamSettings }

/-- Without a user name in the link the configuration has no outbounds at all. -/
def parseVless (rawURL : Bytes) (args : ParseArgs) : Except Error OutputConfig := do
  let parsedURL ← parseURL "vless: invalid url format" rawURL
  let port ← parsePort "vless: invalid port: " parsedURL.port
  let encryption := orDefault (param parsedURL.query "encryption") (ascii "none")
  if encryption ≠ ascii "none" then
    .error (.message (ascii "vless: encryption must be 'none'"))
  else do
    let inbounds := createDefaultInbounds args.httpPort args.socksPort
    if parsedURL.username = [] then .ok (args.output inbounds [])
    else do
      let streamSettings ← vlessStreamSettings (param parsedURL.query)
      .ok (args.output inbounds
        (withDefaultOutbounds (vlessOutbound parsedURL port encryption streamSettings)))

def trojanOutbound (parsedURL : Url.URL) (port : UInt16) (streamSettings : StreamSettings) :
    OutboundConfig :=
  { tag := ascii "Proxy"
    protocol := ascii "trojan"
    remark := parseRemark parsedURL.fragment
    settings := .trojan {
      servers := [{
        address := parsedURL.hostname
        port := port
        password := parsedURL.username
        flow := param parsedURL.query "flow" }] }
    streamSettings := some streamSettings }

def parseTrojan (rawURL : Bytes) (args : ParseArgs) : Except Error OutputConfig := do
  let parsedURL ← parseURL "trojan: invalid url format" rawURL
  let port ← parsePort "trojan: invalid port: " parsedURL.port
  let streamSettings ← trojanStreamSettings (param parsedURL.query)
  .ok (args.output (createDefaultInbounds args.httpPort args.socksPort)
    (withDefaultOutbounds (trojanOutbound parsedURL port streamSettings)))

/-! ### VMess -/

/-- `strconv.ParseUint` of what `%v` prints for a value, nil if it is missing. -/
def parseUintValue (value : Option Json) : Option UInt16 :=
  (parseUint (value.getD .null).sprint 16).map Nat.toUInt16

/-- A string value, or the empty string. -/
def stringOrEmpty (value : Option Json) : Bytes := (Json.asString value).getD []

/-- Network and security of a VMess object. -/
def vmessBaseSettings (get : String → Option Json) : StreamSettings :=
  let net := orDefault (stringOrEmpty (get "net")) (ascii "tcp")
  if Json.asString (get "tls") = some (ascii "tls") then
    { network := net
      security := ascii "tls"
      tlsSettings := some {
        sni := stringOrEmpty (get "sni")
        alpn := splitList (stringOrEmpty (get "alpn"))
        fingerprint := stringOrEmpty (get "fp") } }
  else { network := net }

/-- The header named by the key `type`, if there is one. -/
def vmessHeaderConfig (get : String → Option Json) : Option HeaderConfig :=
  let hType := stringOrEmpty (get "type")
  if hType = [] then none else some { type := hType }

/-- The settings of a VMess object's transport. -/
def vmessTransportSettings (get : String → Option Json) (streamSettings : StreamSettings) :
    StreamSettings :=
  let hType := stringOrEmpty (get "type")
  let path := Json.asString (get "path")
  let host := Json.asString (get "host")
  if streamSettings.network = ascii "tcp" then
    if hType = ascii "http" then
      { streamSettings with
        tcpSettings := some {
          header := some {
            type := ascii "http"
            request := some {
              path := (path.map fun path => path.splitOn 44).getD []
              headers := (host.map fun host => [(ascii "Host", [host])]).getD [] } } } }
    else streamSettings
  else if streamSettings.network = ascii "ws" then
    { streamSettings with
      wsSettings := some {
        path := path.getD []
        headers := (host.map fun host => [(ascii "Host", host)]).getD [] } }
  else if streamSettings.network = ascii "http" then
    { streamSettings with
      httpSettings := some {
        path := path.getD []
        host := (host.map fun host => host.splitOn 44).getD [] } }
  else if streamSettings.network = ascii "quic" then
    { streamSettings with
      quicSettings := some {
        security := host.getD [], key := path.getD [], header := vmessHeaderConfig get } }
  else if streamSettings.network = ascii "kcp" then
    { streamSettings with
      kcpSettings := some { seed := path.getD [], header := vmessHeaderConfig get } }
  else if streamSettings.network = ascii "grpc" then
    { streamSettings with
      grpcSettings := some { serviceName := path.getD [], multiMode := hType = ascii "multi" } }
  else streamSettings

def vmessStreamSettings (get : String → Option Json) : StreamSettings :=
  vmessTransportSettings get (vmessBaseSettings get)

/-- The server of a VMess object: its address, port and user. -/
def vmessVnext (get : String → Option Json) : Except Error VmessVnext :=
  match Json.asString (get "add") with
  | none => .error (.message (ascii "vmess: missing 'add'"))
  | some address =>
      match parseUintValue (get "port") with
      | none =>
          .error (.message (ascii "vmess: invalid port: " ++ ((get "port").getD .null).sprint))
      | some port =>
          match Json.asString (get "id") with
          | none => .error (.message (ascii "vmess: missing 'id'"))
          | some id =>
              .ok {
                address := address
                port := port
                users := [{
                  id := id
                  alterID := (parseUintValue (get "aid")).getD 0
                  security := (Json.asString (get "scy")).getD (ascii "auto") }] }

def vmessOutbound (remark : Bytes) (vnext : VmessVnext) (streamSettings : StreamSettings) :
    OutboundConfig :=
  { tag := ascii "Proxy"
    protocol := ascii "vmess"
    remark := remark
    settings := .vmess { vnext := [vnext] }
    streamSettings := some streamSettings }

/-- The configuration of a decoded VMess object. -/
def vmessConfig (get : String → Option Json) (args : ParseArgs) : Except Error OutputConfig := do
  let vnext ← vmessVnext get
  .ok (args.output (createDefaultInbounds args.httpPort args.socksPort) (withDefaultOutbounds
    (vmessOutbound (stringOrEmpty (get "ps")) vnext (vmessStreamSettings get))))

def parseVmess (unmarshal : Bytes → Option (Map Json)) (rawURL : Bytes) (args : ParseArgs) :
    Except Error OutputConfig :=
  if !hasPrefix rawURL (ascii "vmess://") then .error (.message (ascii "vmess: invalid prefix"))
  else
    match Base64.stdEncoding.decode (trimPrefix rawURL (ascii "vmess://")) with
    | none => .error (.wrap (ascii "vmess: invalid base64 data") .base64)
    | some jsonData =>
        match unmarshal jsonData with
        | none => .error (.wrap (ascii "vmess: invalid json data") .json)
        | some data => vmessConfig (Json.get data) args

/-! ### Shadowsocks -/

/-- Unpadded URL-safe base64, or else padded standard base64. -/
def decodeAuth (encodedPart : Bytes) : Option Bytes :=
  (Base64.rawURLEncoding.decode encodedPart).or (Base64.stdEncoding.decode encodedPart)

def mustParsePort (portStr : Bytes) : UInt16 := ((parseUint portStr 16).getD 443).toUInt16

/-- The encoded method and password. If the URL has no user they stand before the first `@`. -/
def shadowsocksEncodedPart (parsedURL : Url.URL) (rawURL : Bytes) : Except Error Bytes :=
  if parsedURL.username ≠ [] then .ok parsedURL.username
  else
    match index rawURL (ascii "@") with
    | none => .error (.message (ascii "shadowsocks: invalid format, missing @"))
    | some atIndex =>
        -- an index of -1 counts from there, too
        let start := ((index rawURL (ascii "ss://")).map (· + 5)).getD 4
        if atIndex < start then .error .outOfRange else .ok ((rawURL.take atIndex).drop start)

def shadowsocksOutbound (parsedURL : Url.URL) (method password : Bytes)
    (streamSettings : StreamSettings) : OutboundConfig :=
  { tag := ascii "Proxy"
    protocol := ascii "shadowsocks"
    remark := parseRemark parsedURL.fragment
    settings := .shadowsocks {
      servers := [{
        address := parsedURL.hostname
        port := mustParsePort parsedURL.port
        method := method
        password := password }] }
    streamSettings := some streamSettings }

/-- What the options of `v2ray-plugin` set. -/
structure PluginOptions where
  isTLS : Bool := false
  ws : WSSettings := {}
  deriving DecidableEq, Repr

def PluginOptions.read (options : PluginOptions) (opt : Bytes) : PluginOptions :=
  if opt = ascii "tls" then { options with isTLS := true }
  else if hasPrefix opt (ascii "host=") then
    { options with
      ws := { options.ws with headers := [(ascii "Host", trimPrefix opt (ascii "host="))] } }
  else if hasPrefix opt (ascii "path=") then
    { options with ws := { options.ws with path := trimPrefix opt (ascii "path=") } }
  else options

/-- The stream settings of a link with a plugin. -/
def pluginStreamSettings (get : String → Bytes) : StreamSettings :=
  let opts := (get "plugin").splitOn 59
  if opts.head? = some (ascii "v2ray-plugin") then
    let options := opts.foldl PluginOptions.read {}
    let isTLS := options.isTLS || get "security" = ascii "tls"
    { network := ascii "ws"
      security := if isTLS then ascii "tls" else []
      wsSettings := some {
        path := orDefault (get "path") options.ws.path
        headers := if get "host" = [] then options.ws.headers
          else [(ascii "Host", get "host")] }
      tlsSettings :=
        if isTLS then some { sni := get "sni", fingerprint := get "fp" } else none }
  else { network := ascii "tcp" }

/-- Method and password of a link with a plugin, empty if there is no user. -/
def pluginAuth (user : Option Url.Userinfo) : Except Error (Bytes × Bytes) :=
  match user with
  | none => .ok ([], [])
  | some user =>
      match decodeAuth user.string with
      | none => .error (.wrap (ascii "shadowsocks plugin: invalid base64 user info") .base64)
      | some decoded => .ok ((splitTwo 58 decoded).getD ([], []))

def parseShadowsocksPlugin (rawURL : Bytes) (args : ParseArgs) : Except Error OutputConfig := do
  let parsedURL ← parseURL "shadowsocks: invalid plugin url format" rawURL
  let (method, password) ← pluginAuth parsedURL.user
  if method = [] ∨ password = [] then
    .error (.message (ascii
      "shadowsocks plugin: could not parse method and password from user info"))
  else
    .ok (args.output (shadowsocksInbounds args.httpPort args.socksPort)
      (withDefaultOutbounds (shadowsocksOutbound parsedURL method password
        (pluginStreamSettings (param parsedURL.query)))))

def parseShadowsocks (rawURL : Bytes) (args : ParseArgs) : Except Error OutputConfig :=
  if contains rawURL (ascii "plugin=") then parseShadowsocksPlugin rawURL args
  else do
    let parsedURL ← parseURL "shadowsocks: invalid url format" rawURL
    let encodedPart ← shadowsocksEncodedPart parsedURL rawURL
    match decodeAuth encodedPart with
    | none => .error (.wrap (ascii "shadowsocks: invalid base64 data") .base64)
    | some decoded =>
        match splitTwo 58 decoded with
        | none => .error (.message (ascii "shadowsocks: invalid auth format"))
        | some (method, password) =>
            .ok (args.output (shadowsocksInbounds args.httpPort args.socksPort)
              (withDefaultOutbounds
                (shadowsocksOutbound parsedURL method password { network := ascii "tcp" })))

end V2RootCore.ShareLink
