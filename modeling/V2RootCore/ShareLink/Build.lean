import V2RootCore.ShareLink.Parse

/-!
# Building share links

`buildVlessURI`, `buildTrojanURI` and `buildShadowsocksURI`: the link of an outbound. All of them read
the outbound's settings through JSON, so strings are UTF-8 from here on.
-/

namespace V2RootCore.ShareLink

open Go

/-! ### Query parameters -/

/-- Set a parameter unless its value is empty. -/
def setNonempty (query : Url.Values) (key : String) (value : Bytes) : Url.Values :=
  if value = [] then query else query.set (ascii key) value

/-- Set a parameter to the elements of a list, unless it has none. -/
def setList (query : Url.Values) (key : String) (values : List Bytes) : Url.Values :=
  if values = [] then query else query.set (ascii key) ([44].intercalate values)

def setTCP (settings : Option TCPSettings) (query : Url.Values) : Url.Values :=
  match settings.bind TCPSettings.header with
  | none => query
  | some header =>
      let query := query.set (ascii "headerType") header.type
      match header.request with
      | none => query
      | some request =>
          let query := setList query "path" request.path
          match request.headers.lookup (ascii "Host") with
          | some (host :: _) => query.set (ascii "host") host
          | _ => query

def setWS (settings : Option WSSettings) (query : Url.Values) : Url.Values :=
  match settings with
  | none => query
  | some settings =>
      let query := setNonempty query "path" settings.path
      setNonempty query "host" ((settings.headers.lookup (ascii "Host")).getD [])

def setHTTP (settings : Option HTTPSettings) (query : Url.Values) : Url.Values :=
  match settings with
  | none => query
  | some settings => setList (setNonempty query "path" settings.path) "host" settings.host

/-- The header of QUIC settings is not written. -/
def setQUIC (settings : Option QUICSettings) (query : Url.Values) : Url.Values :=
  match settings with
  | none => query
  | some settings =>
      setNonempty (setNonempty query "quicSecurity" settings.security) "key" settings.key

def setKCP (settings : Option KCPSettings) (query : Url.Values) : Url.Values :=
  match settings with
  | none => query
  | some settings =>
      setNonempty (setNonempty query "seed" settings.seed) "headerType"
        ((settings.header.map HeaderConfig.type).getD [])

def setGRPC (settings : Option GRPCSettings) (query : Url.Values) : Url.Values :=
  match settings with
  | none => query
  | some settings =>
      let query := setNonempty query "serviceName" settings.serviceName
      if settings.multiMode then query.set (ascii "mode") (ascii "multi") else query

/-- Whether the server's certificate is checked is not written. -/
def setTLS (settings : Option TLSSettings) (query : Url.Values) : Url.Values :=
  match settings with
  | none => query
  | some settings =>
      setNonempty (setList (setNonempty query "sni" settings.sni) "alpn" settings.alpn)
        "fp" settings.fingerprint

def setReality (streamSettings : StreamSettings) (query : Url.Values) : Url.Values :=
  if streamSettings.security = ascii "reality" then
    match streamSettings.realitySettings with
    | none => query
    | some settings =>
        let query := setNonempty query "sni" settings.sni
        let query := setNonempty query "fp" settings.fingerprint
        let query := setNonempty query "pbk" settings.publicKey
        let query := setNonempty query "sid" settings.shortID
        setNonempty query "spx" settings.spiderX
  else query

/-- Set a parameter unless its value is empty or the given default. -/
def setUnless (query : Url.Values) (key : String) (value default : Bytes) : Url.Values :=
  if value = default then query else setNonempty query key value

def vlessQuery (user : VlessUser) (streamSettings : StreamSettings) : Url.Values :=
  let query := setUnless [] "encryption" user.encryption (ascii "none")
  let query := setNonempty query "flow" user.flow
  let query := setUnless query "type" streamSettings.network (ascii "tcp")
  let query := setUnless query "security" streamSettings.security (ascii "none")
  let query := setTCP streamSettings.tcpSettings query
  let query := setWS streamSettings.wsSettings query
  let query := setHTTP streamSettings.httpSettings query
  let query := setQUIC streamSettings.quicSettings query
  let query := setKCP streamSettings.kcpSettings query
  let query := setGRPC streamSettings.grpcSettings query
  let query := setTLS streamSettings.tlsSettings query
  setReality streamSettings query

/-- The settings of the transport in use. -/
def setTransport (streamSettings : StreamSettings) (query : Url.Values) : Url.Values :=
  if streamSettings.network = ascii "ws" then setWS streamSettings.wsSettings query
  else if streamSettings.network = ascii "http" then setHTTP streamSettings.httpSettings query
  else if streamSettings.network = ascii "quic" then setQUIC streamSettings.quicSettings query
  else if streamSettings.network = ascii "kcp" then setKCP streamSettings.kcpSettings query
  else if streamSettings.network = ascii "grpc" then setGRPC streamSettings.grpcSettings query
  else query

def trojanQuery (server : TrojanServer) (streamSettings : StreamSettings) : Url.Values :=
  let query := setNonempty [] "flow" server.flow
  let query := setUnless query "type" streamSettings.network (ascii "tcp")
  let query := setNonempty query "security" streamSettings.security
  let query := setTLS streamSettings.tlsSettings query
  let query := setReality streamSettings query
  let query := setTCP streamSettings.tcpSettings query
  setTransport streamSettings query

/-! ### Links -/

/-- `scheme://credential@address:port`. Neither the credential nor the address is escaped. -/
def authorityURI (scheme : String) (credential address : Bytes) (port : UInt16) : Bytes :=
  ascii scheme ++ ascii "://" ++ credential ++ 64 :: address ++ 58 :: formatUint port.toNat

def withQuery (query : Url.Values) (uri : Bytes) : Bytes :=
  if query = [] then uri else uri ++ 63 :: query.encode

def withRemark (remark : Bytes) (uri : Bytes) : Bytes :=
  if remark = [] then uri else uri ++ 35 :: Url.pathEscape remark

def buildVlessURI (ob : OutboundConfig) : Except Error Bytes :=
  match ob.settings.readVless.vnext with
  | [] => .error (.message (ascii "invalid vless settings content"))
  | vnext :: _ =>
      match vnext.users with
      | [] => .error (.message (ascii "invalid vless settings content"))
      | user :: _ =>
          match ob.streamSettings with
          | none => .error .nilStreamSettings
          | some streamSettings =>
              .ok (withRemark ob.remark (withQuery (vlessQuery user streamSettings)
                (authorityURI "vless" user.id vnext.address vnext.port)))

def buildTrojanURI (ob : OutboundConfig) : Except Error Bytes :=
  match ob.settings.readTrojan.servers with
  | [] => .error (.message (ascii "invalid trojan settings"))
  | server :: _ =>
      match ob.streamSettings with
      | none => .error .nilStreamSettings
      | some streamSettings =>
          .ok (withRemark ob.remark (withQuery (trojanQuery server streamSettings)
            (authorityURI "trojan" server.password server.address server.port)))

/-! ### Shadowsocks -/

/-- The plugin and its options, which only the WebSocket transport has. -/
def getPluginInfo (streamSettings : StreamSettings) : Option Bytes :=
  if streamSettings.network = ascii "ws" then
    let tls := if streamSettings.security = ascii "tls" then [ascii "tls"] else []
    let ws :=
      match streamSettings.wsSettings with
      | none => []
      | some settings =>
          let host := (settings.headers.lookup (ascii "Host")).getD []
          (if host = [] then [] else [ascii "host=" ++ host]) ++
            if settings.path = [] then [] else [ascii "path=" ++ settings.path]
    let sni :=
      match streamSettings.tlsSettings with
      | none => []
      | some settings => if settings.sni = [] then [] else [ascii "sni=" ++ settings.sni]
    some (ascii "v2ray-plugin;" ++ [59].intercalate (tls ++ ws ++ sni))
  else none

/-- The query of a link with a plugin. -/
def withPlugin (streamSettings : StreamSettings) (uri : Bytes) : Bytes :=
  if streamSettings.network = ascii "tcp" then uri
  else
    match getPluginInfo streamSettings with
    | none => uri
    | some plugin => uri ++ ascii "?plugin=" ++ Url.queryEscape plugin

def buildShadowsocksURI (ob : OutboundConfig) : Except Error Bytes :=
  match ob.settings.readShadowsocks.servers with
  | [] => .error (.message (ascii "invalid shadowsocks settings"))
  | server :: _ =>
      match ob.streamSettings with
      | none => .error .nilStreamSettings
      | some streamSettings =>
          let encodedAuth := Base64.urlEncoding.encode (server.method ++ 58 :: server.password)
          .ok (withRemark ob.remark (withPlugin streamSettings
            (authorityURI "ss" encodedAuth server.address server.port)))

end V2RootCore.ShareLink
