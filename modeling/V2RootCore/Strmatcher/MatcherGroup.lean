import V2RootCore.Go.Map
import V2RootCore.Strmatcher.Matchers

/-!
# Groups of matchers

A `MatcherGroup` numbers its matchers from 1 on and gives the numbers of those that accept an input. Domains
are kept in a trie of labels, which is gone down from the last label of the input.
-/

namespace V2RootCore.Strmatcher

open Go

/-- The matchers that `Add` tells apart. -/
inductive Matcher where
  | full (pattern : Bytes)
  | domain (pattern : Bytes)
  | other (text : Bytes) (accepts : Bytes → Bool)

namespace Matcher

/-- `Match`. -/
def accepts : Matcher → Bytes → Bool
  | full pattern => fullMatcher pattern
  | domain pattern => domainMatcher pattern
  | other _ accepts => accepts

/-- `String`. -/
def text : Matcher → Bytes
  | full pattern => ascii "full:" ++ pattern
  | domain pattern => ascii "domain:" ++ pattern
  | other text _ => text

def substr (pattern : Bytes) : Matcher := other (ascii "keyword:" ++ pattern) (substrMatcher pattern)

end Matcher

inductive Node where
  | mk (values : List UInt32) (sub : List (Bytes × Node))

namespace Node

def values : Node → List UInt32
  | mk values _ => values

def sub : Node → Map Node
  | mk _ sub => sub

/-- The way of `DomainMatcherGroup.Add` down the trie. -/
def add (value : UInt32) : List Bytes → Node → Node
  | [], current => mk (current.values ++ [value]) current.sub
  | part :: parts, current =>
      mk current.values (current.sub.set part (add value parts ((current.sub.lookup part).getD (mk [] []))))

end Node

/-- The position of the last dot before `idx`. -/
def nextPart (domain : Bytes) : Nat → Option Nat
  | 0 => none
  | i + 1 => if domain[i]? = some 46 then some i else nextPart domain i

theorem nextPart_lt {domain : Bytes} {idx nidx : Nat} (h : nextPart domain idx = some nidx) : nidx < idx := by
  induction idx with
  | zero => cases h
  | succ i ih =>
      rw [nextPart] at h
      split at h
      · cases h
        exact Nat.lt_succ_self _
      · exact Nat.lt_succ_of_lt (ih h)

/-- The values met on the way down, from the last label of `domain[:idx]` on. -/
def Node.walk (domain : Bytes) (current : Node) (idx : Nat) : List (List UInt32) :=
  match current.sub.lookup ((domain.take idx).drop ((nextPart domain idx).elim 0 (· + 1))) with
  | none => []
  | some next =>
      (if next.values = [] then [] else [next.values]) ++
        match hidx : nextPart domain idx with
        | none => []
        | some nidx =>
            have := nextPart_lt hidx
            next.walk domain nidx
termination_by idx

structure DomainMatcherGroup where
  root : Option Node := none

namespace DomainMatcherGroup

def add (g : DomainMatcherGroup) (domain : Bytes) (value : UInt32) : DomainMatcherGroup :=
  ⟨some ((g.root.getD (.mk [] [])).add value (domain.splitOn 46).reverse)⟩

/-- `Match`. The subdomain that matches further ranks higher. -/
def matchInput (g : DomainMatcherGroup) (domain : Bytes) : List UInt32 :=
  if domain = [] then []
  else
    match g.root with
    | none => []
    | some root => (root.walk domain domain.length).reverse.flatten

end DomainMatcherGroup

structure FullMatcherGroup where
  matchers : Map (List UInt32) := []

namespace FullMatcherGroup

def add (g : FullMatcherGroup) (domain : Bytes) (value : UInt32) : FullMatcherGroup :=
  ⟨g.matchers.set domain ((g.matchers.lookup domain).getD [] ++ [value])⟩

/-- `Match`. -/
def matchInput (g : FullMatcherGroup) (str : Bytes) : List UInt32 := (g.matchers.lookup str).getD []

end FullMatcherGroup

structure MatcherGroup where
  count : UInt32 := 0
  fullMatcher : FullMatcherGroup := {}
  domainMatcher : DomainMatcherGroup := {}
  otherMatchers : List (Matcher × UInt32) := []

namespace MatcherGroup

/-- `Add` gives the group and the number of the matcher. -/
def add (g : MatcherGroup) (m : Matcher) : MatcherGroup × UInt32 :=
  let c := g.count + 1
  let g := { g with count := c }
  (match m with
    | .full pattern => { g with fullMatcher := g.fullMatcher.add pattern c }
    | .domain pattern => { g with domainMatcher := g.domainMatcher.add pattern c }
    | .other .. => { g with otherMatchers := g.otherMatchers ++ [(m, c)] }, c)

/-- `Match`. -/
def matchInput (g : MatcherGroup) (pattern : Bytes) : List UInt32 :=
  g.fullMatcher.matchInput pattern ++ g.domainMatcher.matchInput pattern ++
    (g.otherMatchers.filter fun entry => entry.1.accepts pattern).map Prod.snd

/-- The group after a sequence of calls of `Add`, and the matchers with the numbers they were given. -/
def addAll : List Matcher → MatcherGroup × List (Matcher × UInt32) :=
  List.foldl (fun (g, entries) m => ((g.add m).1, entries ++ [(m, (g.add m).2)])) ({}, [])

end MatcherGroup

end V2RootCore.Strmatcher
