import V2RootCore.ShareLink.Parse

/-!
# Parsing with options

`Parse`, the entry point of the library: it picks the parser by the link's scheme, fills in defaults
and checks every outbound before the configuration is written as JSON.
-/

namespace V2RootCore.ShareLink

open Go

structure ParseOptions where
  geositePath : Bytes := []
  geositeFile : Bytes := []
  dnsConfig : Option DNSConfig := none
  geositeDomain : Bytes := []
  geositeDNS : Bytes := []
  httpPort : Int := 0
  socksPort : Int := 0
  routingMode : Bytes := []
  uri : Bytes
  geositeRules : List GeositeRule := []
  geoipRules : List GeoipRule := []

/-! ### Validation -/

/-- The checks of one server, in their order. -/
def validateServer (protocol address : Bytes) (port : UInt16) (hasCredential : Bool)
    (missingCredential : String) : Except Error Unit :=
  if address = [] then .error (.message (protocol ++ ascii ": missing address"))
  else if port = 0 then .error (.message (protocol ++ ascii ": missing or invalid port"))
  else if !hasCredential then .error (.message (protocol ++ ascii ": " ++ ascii missingCredential))
  else .ok ()

/-- The first server of an outbound is complete. Settings are read through JSON, which never fails
here. Outbounds of other protocols are not checked. -/
def validateOutbound (ob : OutboundConfig) : Except Error Unit :=
  let missing (text : String) : Except Error Unit := .error (.message (ob.protocol ++ ascii text))
  if ob.protocol = ascii "vless" then
    match ob.settings.readVless.vnext with
    | [] => missing ": missing vnext or users"
    | vnext :: _ =>
        match vnext.users with
        | [] => missing ": missing vnext or users"
        | user :: _ =>
            validateServer ob.protocol vnext.address vnext.port (user.id ≠ []) "missing user id"
  else if ob.protocol = ascii "trojan" then
    match ob.settings.readTrojan.servers with
    | [] => missing ": missing servers"
    | server :: _ =>
        validateServer ob.protocol server.address server.port (server.password ≠ [])
          "missing password"
  else if ob.protocol = ascii "vmess" then
    match ob.settings.readVmess.vnext with
    | [] => missing ": missing vnext or users"
    | vnext :: _ =>
        match vnext.users with
        | [] => missing ": missing vnext or users"
        | user :: _ =>
            validateServer ob.protocol vnext.address vnext.port (user.id ≠ []) "missing user id"
  else if ob.protocol = ascii "shadowsocks" then
    match ob.settings.readShadowsocks.servers with
    | [] => missing ": missing servers"
    | server :: _ =>
        validateServer ob.protocol server.address server.port
          (server.method ≠ [] && server.password ≠ []) "missing method or password"
  else .ok ()

/-! ### The entry point -/

/-- A port that is set, truncated to 16 bits, or the default. -/
def portOr (port : Int) (default : UInt16) : UInt16 :=
  if 0 < port then port.toNat.toUInt16 else default

/-- What the link parsers are called with. A geosite file that exists takes the place of the path. -/
def ParseOptions.args (opts : ParseOptions) (fileExists : Bytes → Bool) : ParseArgs :=
  { httpPort := portOr opts.httpPort 10809
    socksPort := portOr opts.socksPort 10808
    geositePath :=
      if opts.geositeFile ≠ [] ∧ fileExists opts.geositeFile then opts.geositeFile
      else opts.geositePath
    customDNS := opts.dnsConfig
    geositeDNSRule :=
      if opts.geositeDomain ≠ [] ∧ opts.geositeDNS ≠ [] then
        some { domain := opts.geositeDomain, dns := opts.geositeDNS }
      else none
    geositeRules := opts.geositeRules
    geoipRules := opts.geoipRules
    routingMode := orDefault opts.routingMode (ascii "proxy")
    fileExists := fileExists }

/-- The parser of a link's scheme. -/
def parseLink (unmarshal : Bytes → Option (Map Json)) (uri : Bytes) (args : ParseArgs) : Option OutputConfig :=
  if hasPrefix uri (ascii "vless://") then (parseVless uri args).toOption
  else if hasPrefix uri (ascii "vmess://") then (parseVmess unmarshal uri args).toOption
  else if hasPrefix uri (ascii "trojan://") then (parseTrojan uri args).toOption
  else if hasPrefix uri (ascii "ss://") then (parseShadowsocks uri args).toOption
  else none

/-- The configuration `Parse` writes as JSON, or nothing where it returns the empty string. -/
def parse (unmarshal : Bytes → Option (Map Json)) (fileExists : Bytes → Bool) (opts : ParseOptions) :
    Option OutputConfig :=
  (parseLink unmarshal opts.uri (opts.args fileExists)).filter fun config =>
    config.outbounds.all fun ob => (validateOutbound ob).isOk

/-! ### The entry points of the protocols

They do not look at the scheme, have no default for the routing mode and do not validate. -/

def ParseOptions.rawArgs (opts : ParseOptions) (fileExists : Bytes → Bool) : ParseArgs :=
  { opts.args fileExists with routingMode := opts.routingMode }

namespace Entry

def parseVless (fileExists : Bytes → Bool) (opts : ParseOptions) : Option OutputConfig :=
  (ShareLink.parseVless opts.uri (opts.rawArgs fileExists)).toOption

def parseTrojan (fileExists : Bytes → Bool) (opts : ParseOptions) : Option OutputConfig :=
  (ShareLink.parseTrojan opts.uri (opts.rawArgs fileExists)).toOption

def parseVmess (unmarshal : Bytes → Option (Map Json)) (fileExists : Bytes → Bool) (opts : ParseOptions) :
    Option OutputConfig :=
  (ShareLink.parseVmess unmarshal opts.uri (opts.rawArgs fileExists)).toOption

def parseShadowsocks (fileExists : Bytes → Bool) (opts : ParseOptions) : Option OutputConfig :=
  (ShareLink.parseShadowsocks opts.uri (opts.rawArgs fileExists)).toOption

end Entry

inductive Scheme where
  | vless
  | vmess
  | trojan
  | ss
  deriving DecidableEq, Repr

def Scheme.text : Scheme → Bytes
  | .vless => ascii "vless://"
  | .vmess => ascii "vmess://"
  | .trojan => ascii "trojan://"
  | .ss => ascii "ss://"

/-- The entry point of a scheme's protocol. -/
def Scheme.entry (unmarshal : Bytes → Option (Map Json)) (fileExists : Bytes → Bool) (opts : ParseOptions) :
    Scheme → Option OutputConfig
  | .vless => Entry.parseVless fileExists opts
  | .vmess => Entry.parseVmess unmarshal fileExists opts
  | .trojan => Entry.parseTrojan fileExists opts
  | .ss => Entry.parseShadowsocks fileExists opts

/-! ### The configuration a caller decodes

In the JSON that `Parse` returns, every string is UTF-8. -/

open Utf8

def HeaderConfig.decoded (header : HeaderConfig) : HeaderConfig :=
  { type := coerce header.type
    request := header.request.map fun request =>
      { path := request.path.map coerce
        headers := request.headers.map fun field => (coerce field.1, field.2.map coerce) } }

def StreamSettings.decoded (streamSettings : StreamSettings) : StreamSettings :=
  { network := coerce streamSettings.network
    security := coerce streamSettings.security
    tlsSettings := streamSettings.tlsSettings.map fun settings =>
      { settings with
        sni := coerce settings.sni
        alpn := settings.alpn.map coerce
        fingerprint := coerce settings.fingerprint }
    realitySettings := streamSettings.realitySettings.map fun settings =>
      { sni := coerce settings.sni
        fingerprint := coerce settings.fingerprint
        publicKey := coerce settings.publicKey
        shortID := coerce settings.shortID
        spiderX := coerce settings.spiderX }
    tcpSettings := streamSettings.tcpSettings.map fun settings =>
      { settings with header := settings.header.map HeaderConfig.decoded }
    wsSettings := streamSettings.wsSettings.map fun settings =>
      { path := coerce settings.path
        headers := settings.headers.map fun field => (coerce field.1, coerce field.2) }
    httpSettings := streamSettings.httpSettings.map fun settings =>
      { path := coerce settings.path, host := settings.host.map coerce }
    quicSettings := streamSettings.quicSettings.map fun settings =>
      { security := coerce settings.security
        key := coerce settings.key
        header := settings.header.map HeaderConfig.decoded }
    kcpSettings := streamSettings.kcpSettings.map fun settings =>
      { seed := coerce settings.seed
        header := settings.header.map HeaderConfig.decoded }
    grpcSettings := streamSettings.grpcSettings.map fun settings =>
      { settings with serviceName := coerce settings.serviceName } }

def OutboundConfig.decoded (ob : OutboundConfig) : OutboundConfig :=
  { protocol := coerce ob.protocol
    settings := ob.settings.readBack
    streamSettings := ob.streamSettings.map StreamSettings.decoded
    remark := coerce ob.remark
    tag := coerce ob.tag }

def RoutingRule.decoded (rule : RoutingRule) : RoutingRule :=
  { type := coerce rule.type
    domain := rule.domain.map coerce
    ip := rule.ip.map coerce
    port := coerce rule.port
    outboundTag := coerce rule.outboundTag }

/-- The decoded outbounds and rules of a configuration. -/
structure DecodedConfig where
  outbounds : List OutboundConfig
  rules : List RoutingRule
  deriving DecidableEq, Repr

def OutputConfig.decoded (config : OutputConfig) : DecodedConfig :=
  { outbounds := config.outbounds.map OutboundConfig.decoded
    rules := config.routing.rules.map RoutingRule.decoded }

end V2RootCore.ShareLink
