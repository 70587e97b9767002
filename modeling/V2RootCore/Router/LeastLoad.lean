import V2RootCore.Go.Slices

/-!
# Least-load selection

`strategy_leastload.go`. Times are in nanoseconds, the delay of a status in milliseconds. What `costs.Apply` makes
of a time is a parameter, an integer for each tag and time.
-/

namespace V2RootCore.Router

open Go

structure HealthPing where
  all : Int
  fail : Int
  deviation : Int
  average : Int

structure OutboundStatus where
  alive : Bool
  delay : Int
  outboundTag : Bytes
  healthPing : Option HealthPing := none

structure StrategyLeastLoadConfig where
  baselines : List Int := []
  expected : Int := 0
  maxRTT : Int := 0

structure Node where
  tag : Bytes
  countAll : Int
  countFail : Int
  rttAverage : Int
  rttDeviation : Int
  rttDeviationCost : Int
  deriving DecidableEq

def millisecond : Int := 1000000

def nodeOf (apply : Bytes → Int → Int) (v : OutboundStatus) : Node :=
  match v.healthPing with
  | some ping =>
      { tag := v.outboundTag
        countAll := ping.all
        countFail := ping.fail
        rttAverage := ping.average
        rttDeviation := ping.deviation
        rttDeviationCost := apply v.outboundTag ping.deviation }
  | none =>
      { tag := v.outboundTag
        countAll := 1
        countFail := 1
        rttAverage := int64 (v.delay * millisecond)
        rttDeviation := int64 (v.delay * millisecond)
        rttDeviationCost := apply v.outboundTag (int64 (v.delay * millisecond)) }

/-- The comparison of `leastloadSort`. Tags are compared byte by byte. -/
def less (left right : Node) : Bool :=
  if left.rttDeviationCost ≠ right.rttDeviationCost then left.rttDeviationCost < right.rttDeviationCost
  else if left.rttAverage ≠ right.rttAverage then left.rttAverage < right.rttAverage
  else if left.countFail ≠ right.countFail then left.countFail < right.countFail
  else if left.countAll ≠ right.countAll then left.countAll > right.countAll
  else left.tag.map UInt8.toNat < right.tag.map UInt8.toNat

def leastloadSort (nodes : List Node) : List Node := nodes.mergeSort fun left right => !less right left

/-- `Milliseconds` rounds towards zero. -/
def qualifies (candidates : List Bytes) (maxRTT : Int) (v : OutboundStatus) : Bool :=
  v.alive && (v.delay < maxRTT.tdiv millisecond || maxRTT = 0) && candidates.contains v.outboundTag

/-- Without an observer, or if it fails, there is no observation. -/
def getNodes (apply : Bytes → Int → Int) (observation : Option (List OutboundStatus))
    (candidates : List Bytes) (maxRTT : Int) : List Node :=
  match observation with
  | none => []
  | some results => leastloadSort ((results.filter (qualifies candidates maxRTT)).map (nodeOf apply))

/-- `nodes[:n]`. -/
def nodesTo (nodes : List Node) (n : Int) : Except Error (List Node) :=
  if 0 ≤ n ∧ n ≤ nodes.length then .ok (nodes.take n.toNat) else .error .panicked

/-- The loop over the nodes for one baseline. Its index is the count it sets. -/
def countBelow (nodes : List Node) (baseline : Int) (count : Nat) : Nat :=
  if h : count < nodes.length then
    if nodes[count].rttDeviationCost ≥ baseline then count else countBelow nodes baseline (count + 1)
  else count
termination_by nodes.length - count

/-- The loop over the baselines. -/
def applyBaselines (nodes : List Node) (expected : Int) : List Int → Nat → Nat
  | [], count => count
  | baseline :: baselines, count =>
      if countBelow nodes baseline count ≥ expected then countBelow nodes baseline count
      else applyBaselines nodes expected baselines (countBelow nodes baseline count)

/-- `selectLeastLoad` after the expected count is set. -/
def selectExpected (settings : StrategyLeastLoadConfig) (nodes : List Node) (expected : Int) :
    Except Error (List Node) :=
  if settings.baselines.length = 0 then nodesTo nodes expected
  else
    let count := applyBaselines nodes expected settings.baselines 0
    nodesTo nodes (if settings.expected > 0 ∧ count < expected then expected else count)

def selectLeastLoad (settings : StrategyLeastLoadConfig) (nodes : List Node) : Except Error (List Node) :=
  if nodes.length = 0 then .ok []
  else if settings.expected > nodes.length then .ok nodes
  else selectExpected settings nodes (if settings.expected ≤ 0 then 1 else settings.expected)

def pickOutbounds (apply : Bytes → Int → Int) (observation : Option (List OutboundStatus))
    (settings : StrategyLeastLoadConfig) (candidates : List Bytes) : Except Error (List Node) :=
  selectLeastLoad settings (getNodes apply observation candidates settings.maxRTT)

end V2RootCore.Router
