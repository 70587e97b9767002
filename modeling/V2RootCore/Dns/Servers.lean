import V2RootCore.Strmatcher.MatcherGroup

/-!
# The order of the DNS servers

`New` gives the rules of all servers to one group of matchers and writes down for each number which server
the rule is of. The callback of `RequireFeatures` runs at once. `compile` is the one of `regexp`. An index
out of range and a nil entry are panics.
-/

namespace V2RootCore.Dns

open Go Strmatcher

structure PriorityDomain where
  type : Int
  domain : Bytes

structure OriginalRule where
  rule : Bytes
  size : UInt32

/-- `isLocal` tells whether `NewServer` makes a `LocalNameServer` of the address. -/
structure NameServer where
  prioritizedDomain : List PriorityDomain := []
  originalRules : List OriginalRule := []
  skipFallback : Bool := false
  isLocal : Bool := false

structure ServersConfig where
  nameServer : List NameServer
  disableFallback : Bool := false
  disableFallbackIfMatch : Bool := false

def localTLDsAndDotlessDomains : List PriorityDomain :=
  ⟨3, ascii "^[^.]+$"⟩ :: ["local", "localdomain", "localhost", "lan", "home.arpa", "example", "invalid",
    "test"].map fun domain => ⟨1, ascii domain⟩

def localTLDsAndDotlessDomainsRule : OriginalRule :=
  ⟨ascii "geosite:private", UInt32.ofNat localTLDsAndDotlessDomains.length⟩

def typeMap : Int → Option MatcherType
  | 0 => some .full
  | 1 => some .domain
  | 2 => some .substr
  | 3 => some .regex
  | _ => none

section

variable (compile : Bytes → Except Error (Bytes → Bool))

/-- `Type.New`. -/
def newMatcher (pattern : Bytes) : MatcherType → Except Error Matcher
  | .full => .ok (.full pattern)
  | .substr => .ok (.substr pattern)
  | .domain => .ok (.domain pattern)
  | .regex => (compile pattern).map (.other (ascii "regexp:" ++ pattern))

def toStrMatcher (domain : PriorityDomain) : Except Error Matcher :=
  match typeMap domain.type with
  | none => .error (.new (ascii "unknown mapping type"))
  | some strMType =>
      match newMatcher compile domain.domain strMType with
      | .error err => .error (.base (ascii "failed to create str matcher") err)
      | .ok matcher => .ok matcher

structure DomainMatcherInfo where
  clientIdx : UInt16
  domainRuleIdx : UInt16
  deriving DecidableEq

structure Client where
  skipFallback : Bool := false
  domains : List Bytes := []

structure DNS where
  disableFallback : Bool
  disableFallbackIfMatch : Bool
  clients : List Client
  domainMatcher : MatcherGroup
  matcherInfos : List (Option DomainMatcherInfo)

/-- The group and the infos while the clients are made. -/
structure Table where
  domainMatcher : MatcherGroup
  matcherInfos : List (Option DomainMatcherInfo)

def Table.updateDomain (table : Table) (clientIdx originalRuleIdx : Nat) (domainRule : Matcher) :
    Except Error Table :=
  let midx := (table.domainMatcher.add domainRule).2.toNat
  if midx < table.matcherInfos.length then
    .ok {
      domainMatcher := (table.domainMatcher.add domainRule).1
      matcherInfos := table.matcherInfos.set midx (some ⟨.ofNat clientIdx, .ofNat originalRuleIdx⟩) }
  else .error .panicked

/-- The texts of the rules, and where the walk through the original rules is. -/
structure RuleWalk where
  rules : List Bytes := []
  ruleCurr : Nat := 0
  ruleIter : Nat := 0

def RuleWalk.next (walk : RuleWalk) (originalRules : List OriginalRule) (domainRule : Matcher) : RuleWalk :=
  match originalRules[walk.ruleCurr]? with
  | some rule =>
      let rules := if walk.rules.length ≤ walk.ruleCurr then walk.rules ++ [rule.rule] else walk.rules
      if rule.size.toNat ≤ walk.ruleIter + 1 then { rules, ruleCurr := walk.ruleCurr + 1, ruleIter := 0 }
      else { walk with rules, ruleIter := walk.ruleIter + 1 }
  | none => { walk with rules := walk.rules ++ [domainRule.text], ruleCurr := walk.ruleCurr + 1 }

/-- The loop of `NewClient` over the domains. -/
def establishRules (originalRules : List OriginalRule) (clientIdx : Nat) :
    List PriorityDomain → RuleWalk → Table → Except Error (RuleWalk × Table)
  | [], walk, table => .ok (walk, table)
  | domain :: domains, walk, table =>
      match toStrMatcher compile domain with
      | .error err => .error (.base (ascii "failed to create prioritized domain") err)
      | .ok domainRule =>
          match table.updateDomain clientIdx walk.ruleCurr domainRule with
          | .error err => .error err
          | .ok table => establishRules originalRules clientIdx domains (walk.next originalRules domainRule) table

def NameServer.domains (ns : NameServer) : List PriorityDomain :=
  if ns.isLocal then ns.prioritizedDomain ++ localTLDsAndDotlessDomains else ns.prioritizedDomain

def NameServer.rules (ns : NameServer) : List OriginalRule :=
  if ns.isLocal then ns.originalRules ++ [localTLDsAndDotlessDomainsRule] else ns.originalRules

def newClient (clientIdx : Nat) (ns : NameServer) (table : Table) : Except Error (Client × Table) :=
  let matcherInfos :=
    if ns.isLocal then
      table.matcherInfos ++ List.replicate localTLDsAndDotlessDomains.length (some ⟨0, 0⟩)
    else table.matcherInfos
  match establishRules compile ns.rules clientIdx ns.domains {} { table with matcherInfos } with
  | .error err => .error err
  | .ok (walk, table) => .ok ({ skipFallback := ns.skipFallback, domains := walk.rules }, table)

/-- The loop of `New` over the name servers. -/
def newClients : List NameServer → List Client → Table → Except Error (List Client × Table)
  | [], clients, table => .ok (clients, table)
  | ns :: servers, clients, table =>
      match newClient compile clients.length ns table with
      | .error .panicked => .error .panicked
      | .error err => .error (.base (ascii "failed to create client") err)
      | .ok (client, table) => newClients servers (clients ++ [client]) table

/-- `New`. -/
def newDNS (config : ServersConfig) : Except Error DNS :=
  let domainRuleCount := (config.nameServer.map fun ns => ns.prioritizedDomain.length).sum
  match newClients compile config.nameServer [] ⟨{}, List.replicate (domainRuleCount + 1) none⟩ with
  | .error err => .error err
  | .ok (clients, table) => .ok {
      disableFallback := config.disableFallback
      disableFallbackIfMatch := config.disableFallbackIfMatch
      clients := if clients = [] then [{}] else clients
      domainMatcher := table.domainMatcher
      matcherInfos := table.matcherInfos }

end

namespace DNS

/-- The first loop of `sortClients`. A client is used if it is in the list. -/
def useMatches (s : DNS) : List UInt32 → List Nat → Except Error (List Nat)
  | [], clients => .ok clients
  | «match» :: rest, clients =>
      match s.matcherInfos[«match».toNat]? with
      | some (some info) =>
          match s.clients[info.clientIdx.toNat]? with
          | some client =>
              if info.domainRuleIdx.toNat < client.domains.length then
                s.useMatches rest
                  (if info.clientIdx.toNat ∈ clients then clients else clients ++ [info.clientIdx.toNat])
              else .error .panicked
          | none => .error .panicked
      | _ => .error .panicked

/-- The clients by their places. -/
def sortClients (s : DNS) (domain : Bytes) : Except Error (List Nat) :=
  match s.useMatches ((s.domainMatcher.matchInput domain).mergeSort) [] with
  | .error err => .error err
  | .ok used =>
      let clients :=
        if s.disableFallback || s.disableFallbackIfMatch && used ≠ [] then used
        else
          used ++ (List.range s.clients.length).filter fun idx =>
            idx ∉ used && !s.clients[idx]?.any Client.skipFallback
      if clients ≠ [] then .ok clients else if s.clients = [] then .error .panicked else .ok [0]

end DNS

end V2RootCore.Dns
