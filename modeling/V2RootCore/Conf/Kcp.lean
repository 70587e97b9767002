import V2RootCore.Kcp.Config

/-!
# The mKCP settings of a JSON configuration

`KCPConfig.Build` of `transport_internet.go`. The header section stands by what its loader makes of
it; the seed and the header are kept beside the values of `Kcp.Config`.
-/

namespace V2RootCore.Conf

/-- The header kinds `kcpHeaderLoader` knows. -/
inductive KcpHeader where
  | none
  | srtp
  | utp
  | wechatVideo
  | dtls
  | wireguard
  | dns (domain : String)
  deriving DecidableEq

/-- The header section: absent, refused by the loader, refused by the header's own `Build`, or built. -/
inductive KcpHeaderConfig where
  | absent
  | unloadable (base : String)
  | unbuildable (base : String)
  | built (header : KcpHeader)
  deriving DecidableEq

structure KCPConfig where
  mtu : Option UInt32 := Option.none
  tti : Option UInt32 := Option.none
  upCap : Option UInt32 := Option.none
  downCap : Option UInt32 := Option.none
  congestion : Option Bool := Option.none
  readBufferSize : Option UInt32 := Option.none
  writeBufferSize : Option UInt32 := Option.none
  headerConfig : KcpHeaderConfig := .absent
  seed : Option String := Option.none
  deriving DecidableEq

structure KcpSettings extends Kcp.Config where
  headerConfig : Option KcpHeader := Option.none
  seed : Option String := Option.none
  deriving DecidableEq

namespace KCPConfig

/-- A buffer size given in MiB, in bytes; zero stands for 512 KiB. -/
def bufferBytes (size : UInt32) : UInt32 :=
  if size > 0 then size * 1024 * 1024 else 512 * 1024

/-- A setting that is given has to lie in its range. -/
def checkRange (value : Option UInt32) (low high : UInt32) (message : String) : Except String Unit :=
  match value with
  | some value => if value < low ∨ value > high then .error (message ++ toString value) else .ok ()
  | Option.none => .ok ()

def checkMtu (c : KCPConfig) : Except String Unit :=
  checkRange c.mtu 576 1460 "invalid mKCP MTU size: "

def checkTti (c : KCPConfig) : Except String Unit :=
  checkRange c.tti 10 100 "invalid mKCP TTI: "

def buildHeader (c : KCPConfig) : Except String (Option KcpHeader) :=
  match c.headerConfig with
  | .absent => .ok Option.none
  | .unloadable base => .error ("invalid mKCP header config. > " ++ base)
  | .unbuildable base => .error ("invalid mKCP header config > " ++ base)
  | .built header => .ok (some header)

def build (c : KCPConfig) : Except String KcpSettings := do
  c.checkMtu
  c.checkTti
  let header ← c.buildHeader
  return {
    mtu := c.mtu
    tti := c.tti
    uplinkCapacity := c.upCap
    downlinkCapacity := c.downCap
    congestion := c.congestion.getD false
    readBuffer := c.readBufferSize.map bufferBytes
    writeBuffer := c.writeBufferSize.map bufferBytes
    headerConfig := header
    seed := c.seed }

end KCPConfig

end V2RootCore.Conf
