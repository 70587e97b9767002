import V2RootCore.Go.Json
import V2RootCore.Go.Url

/-!
# Configurations

The configuration a share link is parsed into. A nil slice or map and an empty one are the same here:
they differ only in JSON fields that no reader below looks at.
-/

namespace V2RootCore.ShareLink

open Go

/-! ### Protocol settings -/

structure VlessUser where
  id : Bytes
  encryption : Bytes := []
  flow : Bytes := []
  deriving DecidableEq, Repr

structure VlessVnext where
  address : Bytes
  port : UInt16
  users : List VlessUser
  deriving DecidableEq, Repr

structure VlessSettings where
  vnext : List VlessVnext := []
  deriving DecidableEq, Repr

structure TrojanServer where
  address : Bytes
  port : UInt16
  password : Bytes
  flow : Bytes := []
  deriving DecidableEq, Repr

structure TrojanSettings where
  servers : List TrojanServer := []
  deriving DecidableEq, Repr

structure VmessUser where
  id : Bytes
  alterID : UInt16 := 0
  security : Bytes := []
  deriving DecidableEq, Repr

structure VmessVnext where
  address : Bytes
  port : UInt16
  users : List VmessUser
  deriving DecidableEq, Repr

structure VmessSettings where
  vnext : List VmessVnext := []
  deriving DecidableEq, Repr

structure ShadowsocksServer where
  address : Bytes
  port : UInt16
  method : Bytes := []
  password : Bytes
  deriving DecidableEq, Repr

structure ShadowsocksSettings where
  servers : List ShadowsocksServer := []
  deriving DecidableEq, Repr

/-- What an outbound's `Settings interface{}` holds. -/
inductive Settings where
  | nil
  | vless (settings : VlessSettings)
  | trojan (settings : TrojanSettings)
  | vmess (settings : VmessSettings)
  | shadowsocks (settings : ShadowsocksSettings)
  deriving DecidableEq, Repr

namespace Settings

open Utf8

/-- `json.Marshal`, then `json.Unmarshal` into a `VlessSettings`. Strings come back as UTF-8, keys
that are unknown there are skipped, and fields without a key stay empty. -/
def readVless : Settings → VlessSettings
  | vless settings =>
      { vnext := settings.vnext.map fun vnext =>
          { address := coerce vnext.address
            port := vnext.port
            users := vnext.users.map fun user =>
              { id := coerce user.id
                encryption := coerce user.encryption
                flow := coerce user.flow } } }
  | vmess settings =>
      { vnext := settings.vnext.map fun vnext =>
          { address := coerce vnext.address
            port := vnext.port
            users := vnext.users.map fun user => { id := coerce user.id } } }
  | _ => {}

def readTrojan : Settings → TrojanSettings
  | trojan settings =>
      { servers := settings.servers.map fun server =>
          { address := coerce server.address
            port := server.port
            password := coerce server.password
            flow := coerce server.flow } }
  | shadowsocks settings =>
      { servers := settings.servers.map fun server =>
          { address := coerce server.address
            port := server.port
            password := coerce server.password } }
  | _ => {}

def readVmess : Settings → VmessSettings
  | vmess settings =>
      { vnext := settings.vnext.map fun vnext =>
          { address := coerce vnext.address
            port := vnext.port
            users := vnext.users.map fun user =>
              { id := coerce user.id
                alterID := user.alterID
                security := coerce user.security } } }
  | vless settings =>
      { vnext := settings.vnext.map fun vnext =>
          { address := coerce vnext.address
            port := vnext.port
            users := vnext.users.map fun user => { id := coerce user.id } } }
  | _ => {}

def readShadowsocks : Settings → ShadowsocksSettings
  | shadowsocks settings =>
      { servers := settings.servers.map fun server =>
          { address := coerce server.address
            port := server.port
            method := coerce server.method
            password := coerce server.password } }
  | trojan settings =>
      { servers := settings.servers.map fun server =>
          { address := coerce server.address
            port := server.port
            password := coerce server.password } }
  | _ => {}

/-- The settings after a round trip through JSON. -/
def readBack : Settings → Settings
  | nil => nil
  | vless settings => vless (readVless (vless settings))
  | trojan settings => trojan (readTrojan (trojan settings))
  | vmess settings => vmess (readVmess (vmess settings))
  | shadowsocks settings => shadowsocks (readShadowsocks (shadowsocks settings))

end Settings

/-! ### Stream settings -/

structure RequestConfig where
  path : List Bytes := []
  headers : Map (List Bytes) := []
  deriving DecidableEq, Repr

structure HeaderConfig where
  type : Bytes
  request : Option RequestConfig := none
  deriving DecidableEq, Repr

structure RealitySettings where
  sni : Bytes
  fingerprint : Bytes
  publicKey : Bytes
  shortID : Bytes
  spiderX : Bytes
  deriving DecidableEq, Repr

structure TLSSettings where
  sni : Bytes := []
  alpn : List Bytes := []
  fingerprint : Bytes := []
  allowInsecure : Bool := false
  deriving DecidableEq, Repr

structure TCPSettings where
  header : Option HeaderConfig := none
  deriving DecidableEq, Repr

structure WSSettings where
  path : Bytes := []
  headers : Map Bytes := []
  deriving DecidableEq, Repr

structure HTTPSettings where
  path : Bytes := []
  host : List Bytes := []
  deriving DecidableEq, Repr

structure QUICSettings where
  security : Bytes := []
  key : Bytes := []
  header : Option HeaderConfig := none
  deriving DecidableEq, Repr

structure KCPSettings where
  seed : Bytes := []
  header : Option HeaderConfig := none
  deriving DecidableEq, Repr

structure GRPCSettings where
  serviceName : Bytes := []
  multiMode : Bool := false
  deriving DecidableEq, Repr

structure StreamSettings where
  network : Bytes
  security : Bytes := []
  tlsSettings : Option TLSSettings := none
  realitySettings : Option RealitySettings := none
  tcpSettings : Option TCPSettings := none
  wsSettings : Option WSSettings := none
  httpSettings : Option HTTPSettings := none
  quicSettings : Option QUICSettings := none
  kcpSettings : Option KCPSettings := none
  grpcSettings : Option GRPCSettings := none
  deriving DecidableEq, Repr

structure OutboundConfig where
  protocol : Bytes
  settings : Settings := .nil
  streamSettings : Option StreamSettings := none
  remark : Bytes := []
  tag : Bytes := []
  deriving DecidableEq, Repr

/-- The outbound after a round trip of its settings through JSON. -/
def OutboundConfig.readBack (ob : OutboundConfig) : OutboundConfig :=
  { ob with settings := ob.settings.readBack }

/-! ### The rest of a configuration -/

structure SniffingSettings where
  enabled : Bool
  destOverride : List Bytes
  deriving DecidableEq, Repr

structure InboundConfig where
  port : UInt16
  protocol : Bytes
  settings : Map Json
  sniffing : Option SniffingSettings := none

structure DNSConfig where
  servers : List Json
  hosts : Map Bytes := []
  clientIP : Bytes
  tag : Bytes
  strategy : Bytes

structure RoutingRule where
  type : Bytes
  domain : List Bytes := []
  ip : List Bytes := []
  port : Bytes := []
  outboundTag : Bytes
  deriving DecidableEq, Repr

structure RoutingConfig where
  domainStrategy : Bytes
  rules : List RoutingRule
  deriving DecidableEq, Repr

structure OutputConfig where
  inbounds : List InboundConfig
  outbounds : List OutboundConfig
  dns : Option DNSConfig
  routing : RoutingConfig

/-! ### Arguments -/

structure GeositeRule where
  domain : Bytes
  action : Bytes
  outboundTag : Bytes := []
  deriving DecidableEq, Repr

structure GeoipRule where
  country : Bytes
  action : Bytes
  outboundTag : Bytes := []
  deriving DecidableEq, Repr

structure GeositeDNSRule where
  domain : Bytes
  dns : Bytes
  deriving DecidableEq, Repr

/-- The arguments that every link parser takes besides the link. `fileExists` is what `os.Stat` finds
while it runs. -/
structure ParseArgs where
  httpPort : UInt16
  socksPort : UInt16
  geositePath : Bytes := []
  customDNS : Option DNSConfig := none
  geositeDNSRule : Option GeositeDNSRule := none
  geositeRules : List GeositeRule := []
  geoipRules : List GeoipRule := []
  routingMode : Bytes
  fileExists : Bytes → Bool := fun _ => false

/-! ### Errors -/

/-- The error of the standard library that a message wraps. -/
inductive Cause where
  | url (error : Url.Error)
  | base64
  | json
  deriving DecidableEq, Repr

inductive Error where
  | message (text : Bytes)
  | wrap (text : Bytes) (cause : Cause)
  /-- A slice expression out of range, at run time. -/
  | outOfRange
  /-- A nil `StreamSettings` is read, at run time. -/
  | nilStreamSettings
  deriving DecidableEq, Repr

end V2RootCore.ShareLink
