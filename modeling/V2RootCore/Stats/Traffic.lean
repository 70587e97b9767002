import V2RootCore.Strmatcher.Matchers

/-!
# Traffic totals

The counters of the stats manager, under the names the handlers and the dispatcher register them by, and the totals
that are summed up from the answer of the stats API.
-/

namespace V2RootCore.Stats

open Go Strmatcher

/-- Whose traffic a counter counts. -/
inductive Owner where
  | inbound
  | outbound
  | user
  deriving DecidableEq

def Owner.text : Owner → Bytes
  | .inbound => ascii "inbound"
  | .outbound => ascii "outbound"
  | .user => ascii "user"

inductive Direction where
  | uplink
  | downlink
  deriving DecidableEq

def Direction.text : Direction → Bytes
  | .uplink => ascii "uplink"
  | .downlink => ascii "downlink"

/-- What the name of a counter is made of. The tag of a user is the email. -/
structure Key where
  owner : Owner
  tag : Bytes
  direction : Direction
  deriving DecidableEq

def Key.name (key : Key) : Bytes :=
  key.owner.text ++ ascii ">>>" ++ key.tag ++ ascii ">>>traffic>>>" ++ key.direction.text

structure Stat where
  name : Bytes
  value : Int64

/-- `QueryStats` without a reset. -/
def queryStats (pattern : Bytes) (counters : List Stat) : List Stat :=
  counters.filter fun stat => substrMatcher pattern stat.name

/-- `totalUplink` and `totalDownlink`. -/
structure Totals where
  uplink : Int64
  downlink : Int64
  deriving DecidableEq

/-- One round of the loop in `queryStatsFromAPI`. -/
def Totals.add (totals : Totals) (stat : Stat) : Totals :=
  if hasPrefix stat.name (ascii "outbound") && !contains stat.name (ascii "api") then
    if hasSuffix stat.name (ascii "uplink") then { totals with uplink := totals.uplink + stat.value }
    else if hasSuffix stat.name (ascii "downlink") then { totals with downlink := totals.downlink + stat.value }
    else totals
  else totals

def queryStatsFromAPI (counters : List Stat) : Totals := (queryStats [] counters).foldl Totals.add ⟨0, 0⟩

end V2RootCore.Stats
