import V2RootCore.Go.Map
import V2RootCore.Dns.NameServerUdp

/-!
# The cache of DNS answers

The calls on one `CacheController` follow each other. `clock` gives the time of each reading in nanoseconds,
and `reads` counts the readings so far.
-/

namespace V2RootCore.Dns

open Go

inductive LookupError where
  | recordNotFound
  | rCodeError (rCode : Nat)
  | emptyResponse
  | combined (errs : List (Option LookupError))

structure Lookup where
  ips : List Bytes
  ttl : Nat
  err : Option LookupError

def LookupError.isRecordNotFound : Option LookupError → Bool
  | some .recordNotFound => true
  | _ => false

/-- `errors.Is` for the errors that `getIPs` returns. -/
def LookupError.is : Option LookupError → Option LookupError → Bool
  | some (.rCodeError first), some (.rCodeError second) => first = second
  | some .emptyResponse, some .emptyResponse => true
  | _, _ => false

/-- What `getIPs` returns for a record that has not expired. -/
def IPRecord.lookup (r : IPRecord) (ttl : Nat) : Lookup :=
  if r.rCode ≠ 0 then ⟨[], ttl, some (.rCodeError r.rCode)⟩
  else if r.ip = [] then ⟨[], ttl, some .emptyResponse⟩
  else ⟨r.ip, ttl, none⟩

section

variable (clock : Nat → Nat)

/-- The record after the call, how often the clock was read, and the result. -/
def getIPs (reads : Nat) : Option IPRecord → Option IPRecord × Nat × Lookup
  | none => (none, reads, ⟨[], 0, some .recordNotFound⟩)
  | some r =>
      if r.expire ≤ clock reads then (some r, reads + 1, ⟨[], 0, some .recordNotFound⟩)
      else
        let ttl := (r.expire - clock reads) / second + 1
        if ttl = 1 then
          -- To ensure that two consecutive requests get the same result
          (some { r with expire := clock (reads + 1) + second }, reads + 2, r.lookup ttl)
        else (some r, reads + 1, r.lookup ttl)

/-- What `findIPsForDomain` has gathered. -/
structure Gathered where
  allIPs : List Bytes := []
  errs : List (Option LookupError) := []
  rTTL : Nat := 300

/-- One family: the call returns, or goes on with what has been gathered. -/
def Gathered.family (g : Gathered) (mergeReq : Bool) (found : Lookup) : Lookup ⊕ Gathered :=
  if !mergeReq || LookupError.isRecordNotFound found.err then .inl found
  else .inr {
    allIPs := g.allIPs ++ found.ips
    errs := if found.ips = [] then g.errs ++ [found.err] else g.errs
    rTTL := min found.ttl g.rTTL }

/-- The end of `findIPsForDomain`; without a result an index is out of range. -/
def Gathered.finish (g : Gathered) : Option Lookup :=
  if g.allIPs ≠ [] then some ⟨g.allIPs, g.rTTL, none⟩
  else
    match g.errs with
    | first :: second :: _ =>
        if LookupError.is first second then some ⟨[], g.rTTL, first⟩
        else some ⟨[], g.rTTL, some (.combined g.errs)⟩
    | _ => none

/-- Where `findIPsForDomain` is: what it returns, or what it has gathered. -/
structure Search where
  record : Record
  reads : Nat
  found : Lookup ⊕ Gathered := .inr {}

def Record.put (record : Record) (t : RecordType) (r : Option IPRecord) : Record :=
  match t with
  | .a => { record with a := r }
  | .aaaa => { record with aaaa := r }

/-- The block of a family that is enabled. -/
def Search.family (mergeReq : Bool) (s : Search) (t : RecordType) : Search :=
  match s.found with
  | .inl _ => s
  | .inr g =>
      let (r, reads, found) := getIPs clock s.reads (s.record.get t)
      { record := s.record.put t r, reads, found := g.family mergeReq found }

def Search.result (s : Search) : Option Lookup :=
  match s.found with
  | .inl found => some found
  | .inr g => g.finish

structure CacheController where
  disableCache : Bool
  ips : Go.Map Record := []
  reads : Nat := 0

inductive CacheEvent where
  /-- The answer was parsed some readings of the clock ago. -/
  | updateIP (domain : Bytes) (reqType : RecordType) (reply : Reply) (ago : Nat)
  | findIPsForDomain (domain : Bytes) (ipv4Enable ipv6Enable : Bool)
  | cacheCleanup
  /-- The clock is read elsewhere. -/
  | read

def RecordType.other : RecordType → RecordType
  | .a => .aaaa
  | .aaaa => .a

namespace CacheController

/-- `updateIP` looks at the record of the other family, too. -/
def updateIP (c : CacheController) (domain : Bytes) (reqType : RecordType) (ipRec : IPRecord) :
    CacheController :=
  let record := ((c.ips.lookup domain).getD {}).put reqType (some ipRec)
  if c.disableCache then { c with ips := c.ips.set domain record, reads := c.reads + 1 }
  else
    let (r, reads, _) := getIPs clock (c.reads + 1) (record.get reqType.other)
    { c with ips := c.ips.set domain (record.put reqType.other r), reads }

/-- `findIPsForDomain`, as far as it goes. -/
def search (c : CacheController) (domain : Bytes) (ipv4Enable ipv6Enable : Bool) : Search :=
  match c.ips.lookup domain with
  | none => { record := {}, reads := c.reads, found := .inl ⟨[], 0, some .recordNotFound⟩ }
  | some record =>
      (ClassicNameServer.enabled ipv4Enable ipv6Enable).foldl (Search.family clock (ipv4Enable && ipv6Enable))
        { record, reads := c.reads }

def cacheCleanup (c : CacheController) : CacheController :=
  { c with
    ips := (c.ips.map fun field => (field.1, field.2.cleanup (clock c.reads))).filter fun field => field.2 ≠ {}
    reads := c.reads + 1 }

def step (c : CacheController) : CacheEvent → CacheController
  | .updateIP domain reqType reply ago =>
      c.updateIP clock domain reqType (parseResponse (clock (c.reads - ago)) reply)
  | .findIPsForDomain domain ipv4Enable ipv6Enable =>
      let s := c.search clock domain ipv4Enable ipv6Enable
      { c with
        ips := if (c.ips.lookup domain).isSome then c.ips.set domain s.record else c.ips
        reads := s.reads }
  | .cacheCleanup => c.cacheCleanup clock
  | .read => { c with reads := c.reads + 1 }

end CacheController

end

end V2RootCore.Dns
