import V2RootCore.Crypto.Rand

/-!
# Choosing an XMUX client

`mux.go` of the split HTTP transport with the getters of `config.go` it uses. A pointer to a client is a position
in the memory of all clients made so far. A call of `GetXmuxClient` holds a lock, and the clock stands still
during it; the transport closes connections and changes the counters of clients between two calls, also those of
clients that the manager no longer holds.
-/

namespace V2RootCore.SplitHttp

open Go

structure RangeConfig where
  low : Int32
  high : Int32

def RangeConfig.rand (c : RangeConfig) (number : Nat) : Except Error Int := do
  let n ← Crypto.randBetween c.low.toInt c.high.toInt number
  .ok (int32 n)

structure XmuxConfig where
  maxConcurrency : Option RangeConfig := none
  maxConnections : Option RangeConfig := none
  cMaxReuseTimes : Option RangeConfig := none
  hMaxRequestTimes : Option RangeConfig := none
  hMaxReusableSecs : Option RangeConfig := none

def normalized (field : Option RangeConfig) : RangeConfig := field.getD { low := 0, high := 0 }

namespace XmuxConfig

def getNormalizedMaxConcurrency (m : XmuxConfig) : RangeConfig := normalized m.maxConcurrency
def getNormalizedMaxConnections (m : XmuxConfig) : RangeConfig := normalized m.maxConnections
def getNormalizedCMaxReuseTimes (m : XmuxConfig) : RangeConfig := normalized m.cMaxReuseTimes
def getNormalizedHMaxRequestTimes (m : XmuxConfig) : RangeConfig := normalized m.hMaxRequestTimes
def getNormalizedHMaxReusableSecs (m : XmuxConfig) : RangeConfig := normalized m.hMaxReusableSecs

end XmuxConfig

/-- The zero time of `UnreusableAt` is `none`. What was drawn for `cMaxReuseTimes` is kept as history. -/
structure XmuxClient where
  closed : Bool := false
  openUsage : Int := 0
  leftUsage : Int
  leftRequests : Int
  unreusableAt : Option Nat
  reuseTimes : Int

structure XmuxManager where
  xmuxConfig : XmuxConfig
  concurrency : Int
  connections : Int
  xmuxClients : List Nat := []

def newXmuxManager (xmuxConfig : XmuxConfig) (concurrency connections : Nat) : Except Error XmuxManager := do
  let concurrency ← xmuxConfig.getNormalizedMaxConcurrency.rand concurrency
  let connections ← xmuxConfig.getNormalizedMaxConnections.rand connections
  .ok { xmuxConfig, concurrency, connections }

def second : Nat := 1000000000

/-- The random numbers a call may use. -/
structure Draws where
  reuseTimes : Nat
  requestTimes : Nat
  reusableSecs : Nat
  index : Nat

structure State where
  manager : XmuxManager
  memory : List XmuxClient := []
  now : Nat

namespace State

def newXmuxClient (s : State) (draws : Draws) : Except Error (State × Nat) := do
  let reuseTimes ← s.manager.xmuxConfig.getNormalizedCMaxReuseTimes.rand draws.reuseTimes
  let requestTimes ← s.manager.xmuxConfig.getNormalizedHMaxRequestTimes.rand draws.requestTimes
  let reusableSecs ← s.manager.xmuxConfig.getNormalizedHMaxReusableSecs.rand draws.reusableSecs
  let xmuxClient : XmuxClient :=
    { leftUsage := if 0 < reuseTimes then reuseTimes - 1 else -1
      leftRequests := if 0 < requestTimes then requestTimes else 2 ^ 31 - 1
      unreusableAt := if 0 < reusableSecs then some (s.now + reusableSecs.toNat * second) else none
      reuseTimes }
  let pointer := s.memory.length
  .ok ({ s with
    manager.xmuxClients := s.manager.xmuxClients ++ [pointer]
    memory := s.memory ++ [xmuxClient] }, pointer)

def removes (s : State) (pointer : Nat) : Bool :=
  s.memory[pointer]?.any fun xmuxClient =>
    xmuxClient.closed || xmuxClient.leftUsage = 0 || xmuxClient.leftRequests ≤ 0 ||
      xmuxClient.unreusableAt.any (· < s.now)

/-- The loop that takes clients out of the slice it walks. -/
def removeLoop (s : State) (i : Nat) (xmuxClients : List Nat) : List Nat :=
  if h : i < xmuxClients.length then
    if s.removes xmuxClients[i] then s.removeLoop i (xmuxClients.take i ++ xmuxClients.drop (i + 1))
    else s.removeLoop (i + 1) xmuxClients
  else xmuxClients
termination_by xmuxClients.length - i
decreasing_by all_goals grind

def hasRoom (s : State) (pointer : Nat) : Bool :=
  s.memory[pointer]?.any fun xmuxClient => xmuxClient.openUsage < s.manager.concurrency

def eligible (s : State) : List Nat :=
  if 0 < s.manager.concurrency then s.manager.xmuxClients.filter s.hasRoom else s.manager.xmuxClients

def reuse (xmuxClient : XmuxClient) : XmuxClient :=
  if 0 < xmuxClient.leftUsage then { xmuxClient with leftUsage := xmuxClient.leftUsage - 1 } else xmuxClient

/-- `GetXmuxClient` after its first loop. -/
def choose (s : State) (draws : Draws) : Except Error (State × Nat) :=
  if s.manager.xmuxClients.length = 0 then s.newXmuxClient draws
  else if 0 < s.manager.connections ∧ s.manager.xmuxClients.length < s.manager.connections then
    s.newXmuxClient draws
  else if s.eligible.length = 0 then s.newXmuxClient draws
  else
    match s.eligible[draws.index % s.eligible.length]? with
    | some pointer => .ok ({ s with memory := s.memory.modify pointer reuse }, pointer)
    | none => .error .panicked

def getXmuxClient (s : State) (draws : Draws) : Except Error (State × Nat) :=
  choose { s with manager.xmuxClients := s.removeLoop 0 s.manager.xmuxClients } draws

end State

inductive Event where
  | get (draws : Draws)
  | usage (pointer : Nat) (delta : Int)
  | request (pointer : Nat) (delta : Int)
  | close (pointer : Nat)
  | advance (duration : Nat)

/-- A state with the pointers that were returned so far. -/
structure History extends State where
  returned : List Nat := []

def History.step (h : History) : Event → History
  | .get draws =>
      match h.getXmuxClient draws with
      | .ok (s, pointer) => { toState := s, returned := pointer :: h.returned }
      | .error _ => h
  | .usage pointer delta =>
      { h with memory := h.memory.modify pointer fun xmuxClient =>
          { xmuxClient with openUsage := int32 (xmuxClient.openUsage + delta) } }
  | .request pointer delta =>
      { h with memory := h.memory.modify pointer fun xmuxClient =>
          { xmuxClient with leftRequests := int32 (xmuxClient.leftRequests + delta) } }
  | .close pointer =>
      { h with memory := h.memory.modify pointer fun xmuxClient => { xmuxClient with closed := true } }
  | .advance duration => { h with now := h.now + duration }

end V2RootCore.SplitHttp
