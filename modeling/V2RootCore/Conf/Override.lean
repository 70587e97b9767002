import V2RootCore.Go.Strings

/-!
# Merging configuration files

`Override` takes the settings of a later file into a configuration. Inbounds and outbounds are matched by
their tags; what else they and the other sections hold is not looked at.
-/

namespace V2RootCore.Conf

open Go

/-- An `InboundDetourConfig` or an `OutboundDetourConfig`. -/
structure Detour (σ : Type) where
  tag : Bytes
  settings : σ
  deriving DecidableEq

structure Config (σ : Type) where
  transport : Option σ := none
  logConfig : Option σ := none
  routerConfig : Option σ := none
  dnsConfig : Option σ := none
  inboundConfigs : List (Detour σ) := []
  outboundConfigs : List (Detour σ) := []
  policy : Option σ := none
  api : Option σ := none
  metrics : Option σ := none
  stats : Option σ := none
  reverse : Option σ := none
  fakeDNS : Option σ := none
  observatory : Option σ := none
  burstObservatory : Option σ := none
  version : Option σ := none

variable {σ : Type}

/-- `findInboundTag` and `findOutboundTag`. -/
def findTag (configs : List (Detour σ)) (tag : Bytes) : Option Nat :=
  configs.findIdx? fun config => config.tag = tag

def overrideInbound (configs : List (Detour σ)) (config : Detour σ) : List (Detour σ) :=
  match findTag configs config.tag with
  | some idx => configs.set idx config
  | none => configs ++ [config]

/-- The outbounds, and those that will stand in front. -/
def overrideOutbound (tail : Bool) (state : List (Detour σ) × List (Detour σ)) (config : Detour σ) :
    List (Detour σ) × List (Detour σ) :=
  match findTag state.1 config.tag with
  | some idx => (state.1.set idx config, state.2)
  | none => if tail then (state.1 ++ [config], state.2) else (state.1, state.2 ++ [config])

def isTail (fn : Bytes) : Bool := contains (toLower fn) (ascii "tail")

def Config.override (c o : Config σ) (fn : Bytes) : Config σ :=
  let outbounds := o.outboundConfigs.foldl (overrideOutbound (isTail fn)) (c.outboundConfigs, [])
  { transport := o.transport.or c.transport
    logConfig := o.logConfig.or c.logConfig
    routerConfig := o.routerConfig.or c.routerConfig
    dnsConfig := o.dnsConfig.or c.dnsConfig
    inboundConfigs := o.inboundConfigs.foldl overrideInbound c.inboundConfigs
    outboundConfigs := outbounds.2 ++ outbounds.1
    policy := o.policy.or c.policy
    api := o.api.or c.api
    metrics := o.metrics.or c.metrics
    stats := o.stats.or c.stats
    reverse := o.reverse.or c.reverse
    fakeDNS := o.fakeDNS.or c.fakeDNS
    observatory := o.observatory.or c.observatory
    burstObservatory := o.burstObservatory.or c.burstObservatory
    version := o.version.or c.version }

end V2RootCore.Conf
