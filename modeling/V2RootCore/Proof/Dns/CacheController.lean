import V2RootCore.Dns.CacheController
import V2RootCore.Proof.Go.Map
import V2RootCore.Transition

/-!
# How long an answer is served

A look at a record in its last second gives it another second, so looks that follow each other within a
second keep it. A second without a call is enough to end it.
-/

namespace V2RootCore.Dns

open Go Transition LookupError

/-- The answers that `parseResponse` gets to. -/
def readAnswers : List Answer → List Answer
  | [] => []
  | answer :: answers => answer :: if answer.body = .broken then [] else readAnswers answers

/-- The smallest TTL, of at most 300 seconds and at least one. -/
def Reply.lifetime (reply : Reply) : Nat :=
  (readAnswers reply.answers).foldl (fun least answer => min least (max 1 answer.ttl.toNat * second))
    (300 * second)

def IPRecord.addresses (r : IPRecord) : List Bytes := if r.rCode ≠ 0 then [] else r.ip

/-- The last answer of a family. -/
structure Stored where
  received : Nat
  reply : Reply

namespace Stored

def addresses (a : Stored) : List Bytes := (parseResponse a.received a.reply).addresses

/-- The end of its lifetime. -/
def ends (a : Stored) : Nat := a.received + a.reply.lifetime

end Stored

section

variable (clock : Nat → Nat)

/-- A second between two points of time in which there was no call. -/
def Quiet (calls : List (Nat × Nat)) (start stop : Nat) : Prop :=
  ∃ begin, start ≤ begin ∧ begin + second ≤ stop ∧ ∀ call ∈ calls, call.2 ≤ begin ∨ begin + second ≤ call.1

/-- A cache, the answers that it was given last, and when the calls for each domain began and ended. -/
structure Tracked where
  cache : CacheController
  stored : Bytes → RecordType → Option Stored := fun _ _ => none
  calls : Bytes → List (Nat × Nat) := fun _ => []

namespace Tracked

/-- The times of the first and the last reading of the clock in a call. -/
def interval (t : Tracked) (event : CacheEvent) : Nat × Nat :=
  (clock t.cache.reads, clock ((t.cache.step clock event).reads - 1))

def record (t : Tracked) (domain : Bytes) : Record := (t.cache.ips.lookup domain).getD {}

def step (t : Tracked) (event : CacheEvent) : Tracked where
  cache := t.cache.step clock event
  stored :=
    match event with
    | .updateIP domain reqType reply ago =>
        Function.update t.stored domain
          (Function.update (t.stored domain) reqType (some ⟨clock (t.cache.reads - ago), reply⟩))
    | _ => t.stored
  calls :=
    match event with
    | .updateIP domain .. | .findIPsForDomain domain .. =>
        Function.update t.calls domain (t.interval clock event :: t.calls domain)
    | _ => t.calls

/-- When the record of a family is looked at. -/
def reading (t : Tracked) (domain : Bytes) (ipv4Enable : Bool) : RecordType → Nat
  | .a => clock t.cache.reads
  | .aaaa =>
      clock (if ipv4Enable then (getIPs clock t.cache.reads (t.record domain).a).2.1 else t.cache.reads)

/-- A call finds what was answered last, for no longer than it may. -/
def Served (t : Tracked) : CacheEvent → Prop
  | .findIPsForDomain domain ipv4Enable ipv6Enable => ipv4Enable ∨ ipv6Enable →
      ∃ found, (t.cache.search clock domain ipv4Enable ipv6Enable).result = some found ∧
        (isRecordNotFound found.err = true → found.ips = []) ∧
        (isRecordNotFound found.err = false →
          found.ips = (ClassicNameServer.enabled ipv4Enable ipv6Enable).flatMap
              (fun family => ((t.stored domain family).map Stored.addresses).getD []) ∧
            ∀ family ∈ ClassicNameServer.enabled ipv4Enable ipv6Enable, ∃ r a,
              (t.record domain).get family = some r ∧ t.stored domain family = some a ∧
              t.reading clock domain ipv4Enable family < r.expire ∧
              found.ttl * second ≤ r.expire - t.reading clock domain ipv4Enable family + second ∧
              (a.addresses ≠ [] →
                t.reading clock domain ipv4Enable family ≤ a.ends + 2 * second))
  | _ => True

/-- Between the lifetime of an answer and a call that looks for it more than two seconds later, there was a
second without a call for the domain. -/
def Spaced (t : Tracked) : CacheEvent → Prop
  | .findIPsForDomain domain ipv4Enable ipv6Enable =>
      ∀ family ∈ ClassicNameServer.enabled ipv4Enable ipv6Enable, ∀ a, t.stored domain family = some a →
        a.ends + 2 * second < t.reading clock domain ipv4Enable family →
          Quiet (t.calls domain) a.ends (clock t.cache.reads)
  | _ => True

end Tracked

end

/-! ### One record -/

/-- A record after the header of an answer. -/
def IPRecord.shorten (now : Nat) (r : IPRecord) (answer : Answer) : IPRecord :=
  let expire := now + (if answer.ttl = 0 then 1 else answer.ttl).toNat * second
  if expire < r.expire then { r with expire } else r

theorem addAnswers_cons (now : Nat) (r : IPRecord) (answer : Answer) (answers : List Answer) :
    r.addAnswers now (answer :: answers) =
      match answer.body with
      | .a ip => { r.shorten now answer with ip := (r.shorten now answer).ip ++ [ip.toList] }.addAnswers now answers
      | .aaaa ip =>
          if ip.toList.take 12 = Net.v4InV6Prefix then (r.shorten now answer).addAnswers now answers
          else { r.shorten now answer with ip := (r.shorten now answer).ip ++ [ip.toList] }.addAnswers now answers
      | .other => (r.shorten now answer).addAnswers now answers
      | .broken => r.shorten now answer := by
  rw [IPRecord.addAnswers]
  rfl

theorem expire_shorten (now least : Nat) (r : IPRecord) (answer : Answer) (hexpire : r.expire = now + least) :
    (r.shorten now answer).expire = now + min least (max 1 answer.ttl.toNat * second) := by
  have httl : (if answer.ttl = 0 then 1 else answer.ttl).toNat = max 1 answer.ttl.toNat := by
    split
    · next hzero => rw [hzero]; rfl
    · next hne =>
        have hpos : answer.ttl.toNat ≠ 0 := fun heq => hne (UInt32.toNat_inj.mp heq)
        omega
  rw [IPRecord.shorten, httl]
  generalize max 1 answer.ttl.toNat * second = life
  rw [hexpire]
  split
  · exact congrArg (now + ·) (Nat.min_eq_right (by omega)).symm
  · exact hexpire.trans (congrArg (now + ·) (Nat.min_eq_left (by omega)).symm)

theorem expire_setIP (r : IPRecord) (ip : List Bytes) : ({ r with ip } : IPRecord).expire = r.expire := rfl

theorem expire_addAnswers (now least : Nat) (answers : List Answer) (r : IPRecord)
    (hexpire : r.expire = now + least) : (r.addAnswers now answers).expire =
      now + (readAnswers answers).foldl
        (fun least answer => min least (max 1 answer.ttl.toNat * second)) least := by
  induction answers generalizing r least with
  | nil => exact hexpire
  | cons answer answers ih =>
      have hshorten := expire_shorten now least r answer hexpire
      rw [addAnswers_cons, readAnswers, List.foldl_cons]
      cases answer.body with
      | a ip => exact ih _ _ ((expire_setIP _ _).trans hshorten)
      | aaaa ip =>
          dsimp only
          split
          · exact ih _ _ hshorten
          · exact ih _ _ ((expire_setIP _ _).trans hshorten)
      | other => exact ih _ _ hshorten
      | broken => exact hshorten

theorem expire_parseResponse (now : Nat) (reply : Reply) :
    (parseResponse now reply).expire = now + reply.lifetime :=
  expire_addAnswers now (300 * second) reply.answers _ rfl

section

variable {clock : Nat → Nat} {reads : Nat} {calls : List (Nat × Nat)} {call : Nat × Nat} {a : Stored}

theorem le_getIPs (clock : Nat → Nat) (reads : Nat) (r : Option IPRecord) : reads ≤ (getIPs clock reads r).2.1 := by
  unfold getIPs
  grind

/-- A record holds an answer, and a quiet second after the lifetime of the answer ends it. -/
structure Keeps (calls : List (Nat × Nat)) (a : Stored) (r : IPRecord) : Prop where
  addresses : r.addresses = a.addresses
  expires : ∀ now, Quiet calls a.ends now → r.expire ≤ now

namespace Keeps

variable {r : IPRecord}

theorem parseResponse (a : Stored) : Keeps calls a (parseResponse a.received a.reply) := by
  refine ⟨rfl, ?_⟩
  rintro now ⟨begin, hstart, hstop, -⟩
  rw [expire_parseResponse]
  exact hstart.trans (by omega)

theorem cons (h : Keeps calls a r) (call : Nat × Nat) : Keeps (call :: calls) a r := by
  refine ⟨h.addresses, ?_⟩
  rintro now ⟨begin, hstart, hstop, hcalls⟩
  exact h.expires now ⟨begin, hstart, hstop, (List.forall_mem_cons.mp hcalls).2⟩

/-- A look gives a record another second only during a call, and before the record has ended. -/
theorem getIPs (h : Keeps calls a r) (hcall : call ∈ calls) (hbegan : call.1 ≤ clock reads)
    (hended : clock ((getIPs clock reads (some r)).2.1 - 1) ≤ call.2) :
    ∃ r', (getIPs clock reads (some r)).1 = some r' ∧ Keeps calls a r' := by
  rw [Dns.getIPs] at hended ⊢
  by_cases hexpired : r.expire ≤ clock reads
  · rw [if_pos hexpired]
    exact ⟨r, rfl, h⟩
  rw [if_neg hexpired] at hended ⊢
  dsimp only at hended ⊢
  split_ifs at hended ⊢
  · refine ⟨_, rfl, h.addresses, ?_⟩
    rintro now ⟨begin, hstart, hstop, hcalls⟩
    -- A quiet second after the call outlasts the one added, and one before it had ended the record.
    obtain hbefore | hafter := hcalls call hcall
    · exact (Nat.add_le_add_right (hended.trans hbefore) second).trans hstop
    · exact absurd (h.expires _ ⟨begin, hstart, hafter.trans hbegan, hcalls⟩) hexpired
  · exact ⟨r, rfl, h⟩

end Keeps

/-- What a look at a record finds. -/
theorem getIPs_spec (clock : Nat → Nat) (reads : Nat) (r : Option IPRecord) :
    (isRecordNotFound (getIPs clock reads r).2.2.err = true ∧ (getIPs clock reads r).2.2.ips = []) ∨
      ∃ x, r = some x ∧ clock reads < x.expire ∧
        (getIPs clock reads r).2.2.ttl * second ≤ x.expire - clock reads + second ∧
        (getIPs clock reads r).2.2.ips = x.addresses ∧
        isRecordNotFound (getIPs clock reads r).2.2.err = false := by
  cases r with
  | none => exact .inl ⟨rfl, rfl⟩
  | some r =>
      rw [getIPs]
      by_cases hexpired : r.expire ≤ clock reads
      · rw [if_pos hexpired]
        exact .inl ⟨rfl, rfl⟩
      · rw [if_neg hexpired]
        have hlookup (ttl : Nat) : (r.lookup ttl).ttl = ttl ∧ (r.lookup ttl).ips = r.addresses ∧
            isRecordNotFound (r.lookup ttl).err = false := by
          unfold IPRecord.lookup IPRecord.addresses
          grind [isRecordNotFound]
        have hdiv := Nat.div_mul_le_self (r.expire - clock reads) second
        refine .inr ⟨r, rfl, by omega, ?_⟩
        dsimp only
        split <;> simp only [hlookup, Nat.add_mul, one_mul, and_self, and_true] <;> omega

/-! ### Runs -/

theorem Record.get_put (record : Record) (t other : RecordType) (r : Option IPRecord) :
    (record.put t r).get other = if other = t then r else record.get other := by
  cases t <;> cases other <;> rfl

/-- A record holds what was answered last. -/
def Fits (calls : List (Nat × Nat)) (record : Record) (answers : RecordType → Option Stored) : Prop :=
  ∀ family r, record.get family = some r → ∃ a, answers family = some a ∧ Keeps calls a r

variable {record : Record} {answers : RecordType → Option Stored}

theorem fits_empty : Fits calls {} answers := by
  intro family r hr
  cases family <;> cases hr

namespace Fits

theorem cons (h : Fits calls record answers) (call : Nat × Nat) : Fits (call :: calls) record answers := by
  intro family r hr
  obtain ⟨a, ha, hkeeps⟩ := h family r hr
  exact ⟨a, ha, hkeeps.cons call⟩

theorem put (h : Fits calls record answers) {t : RecordType} {r : Option IPRecord} {answer : Option Stored}
    (hnew : ∀ x, r = some x → ∃ a, answer = some a ∧ Keeps calls a x) :
    Fits calls (record.put t r) (Function.update answers t answer) := by
  intro family x hx
  rw [Record.get_put] at hx
  by_cases hfamily : family = t
  · subst hfamily
    rw [if_pos rfl] at hx
    rw [Function.update_self]
    exact hnew x hx
  · rw [if_neg hfamily] at hx
    rw [Function.update_of_ne hfamily]
    exact h family x hx

theorem getIPs (h : Fits calls record answers) (hcall : call ∈ calls) (hbegan : call.1 ≤ clock reads)
    {t : RecordType} (hended : clock ((getIPs clock reads (record.get t)).2.1 - 1) ≤ call.2) :
    Fits calls (record.put t (getIPs clock reads (record.get t)).1) answers := by
  rw [← Function.update_eq_self t answers]
  refine h.put fun x hx => ?_
  cases hget : record.get t with
  | none =>
      rw [hget] at hx
      cases hx
  | some r =>
      obtain ⟨a, ha, hkeeps⟩ := h t r hget
      rw [hget] at hx hended
      obtain ⟨r', hr', hkeeps'⟩ := hkeeps.getIPs hcall hbegan hended
      obtain rfl := Option.some.inj (hr'.symm.trans hx)
      exact ⟨a, ha, hkeeps'⟩

end Fits

theorem Search.le_family (clock : Nat → Nat) (mergeReq : Bool) (s : Search) (t : RecordType) :
    s.reads ≤ (s.family clock mergeReq t).reads := by
  unfold Search.family
  cases s.found with
  | inl found => exact Nat.le_refl _
  | inr g => exact le_getIPs clock s.reads (s.record.get t)

theorem Search.le_foldl (clock : Nat → Nat) (mergeReq : Bool) (ts : List RecordType) (s : Search) :
    s.reads ≤ (ts.foldl (Search.family clock mergeReq) s).reads := by
  induction ts generalizing s with
  | nil => exact Nat.le_refl _
  | cons t ts ih => exact (s.le_family clock mergeReq t).trans (ih _)

theorem Fits.search (mergeReq : Bool) (ts : List RecordType) (s : Search) (h : Fits calls s.record answers)
    (hclock : Monotone clock) (hcall : call ∈ calls) (hbegan : call.1 ≤ clock s.reads)
    (hended : clock ((ts.foldl (Search.family clock mergeReq) s).reads - 1) ≤ call.2) :
    Fits calls (ts.foldl (Search.family clock mergeReq) s).record answers := by
  induction ts generalizing s with
  | nil => exact h
  | cons t ts ih =>
      refine ih _ ?_ (hbegan.trans (hclock (s.le_family clock mergeReq t))) hended
      have hstop := (hclock (Nat.sub_le_sub_right (Search.le_foldl clock mergeReq ts _) 1)).trans hended
      unfold Search.family at hstop ⊢
      cases hfound : s.found with
      | inl found => exact h
      | inr g =>
          rw [hfound] at hstop
          exact h.getIPs hcall hbegan hstop

def Tracked.Inv (t : Tracked) : Prop :=
  ∀ domain record, (domain, record) ∈ t.cache.ips ∨ record = {} → Fits (t.calls domain) record (t.stored domain)

namespace Tracked.Inv

variable {t : Tracked}

theorem fits (h : t.Inv) (domain : Bytes) : Fits (t.calls domain) (t.record domain) (t.stored domain) := by
  refine h domain _ ?_
  unfold Tracked.record
  cases hlookup : t.cache.ips.lookup domain with
  | none => exact .inr rfl
  | some record => exact .inl (Map.mem_of_lookup_eq_some hlookup)

theorem set (h : t.Inv) (domain : Bytes) (hnew : Fits calls record answers) (disableCache : Bool) (reads : Nat) :
    Inv ⟨⟨disableCache, t.cache.ips.set domain record, reads⟩, Function.update t.stored domain answers,
      Function.update t.calls domain calls⟩ := by
  rintro other old (hold | rfl)
  · change Fits (Function.update t.calls domain calls other) old (Function.update t.stored domain answers other)
    rcases Map.mem_set.mp hold with ⟨rfl, rfl⟩ | ⟨hother, hmem⟩
    · rw [Function.update_self, Function.update_self]
      exact hnew
    · rw [Function.update_of_ne hother, Function.update_of_ne hother]
      exact h other old (.inl hmem)
  · exact fits_empty

theorem addCall (h : t.Inv) (domain : Bytes) (call : Nat × Nat) :
    Inv ⟨t.cache, t.stored, Function.update t.calls domain (call :: t.calls domain)⟩ := by
  intro other record hrecord
  change Fits (Function.update t.calls domain _ other) record (t.stored other)
  by_cases hother : other = domain
  · subst hother
    rw [Function.update_self]
    exact (h other record hrecord).cons call
  · rw [Function.update_of_ne hother]
    exact h other record hrecord

theorem updateIP (h : t.Inv) (hclock : Monotone clock) (domain : Bytes) (reqType : RecordType)
    (reply : Reply) (ago : Nat) : (t.step clock (.updateIP domain reqType reply ago)).Inv := by
  have hnew : Fits (t.interval clock (.updateIP domain reqType reply ago) :: t.calls domain)
      ((t.record domain).put reqType (some (parseResponse (clock (t.cache.reads - ago)) reply)))
      (Function.update (t.stored domain) reqType (some ⟨clock (t.cache.reads - ago), reply⟩)) :=
    ((h.fits domain).cons _).put fun x hx => ⟨_, rfl, Option.some.inj hx ▸ .parseResponse _⟩
  cases hcache : t.cache.disableCache with
  | true =>
      have hset := h.set domain hnew true (t.cache.reads + 1)
      simpa only [Tracked.step, CacheController.step, CacheController.updateIP, hcache, if_true,
        Tracked.record] using hset
  | false =>
      have hlook := hnew.getIPs (t := reqType.other) List.mem_cons_self
        (show _ ≤ clock (t.cache.reads + 1) from hclock (Nat.le_succ _)) (by
          simp only [interval, CacheController.step, CacheController.updateIP, hcache, Bool.false_eq_true, if_false]
          exact Nat.le_refl _)
      have hset := h.set domain hlook false (t.step clock (.updateIP domain reqType reply ago)).cache.reads
      simpa only [Tracked.step, CacheController.step, CacheController.updateIP, hcache, Bool.false_eq_true,
        if_false, Tracked.record] using hset

theorem find (h : t.Inv) (hclock : Monotone clock) (domain : Bytes) (ipv4Enable ipv6Enable : Bool) :
    (t.step clock (.findIPsForDomain domain ipv4Enable ipv6Enable)).Inv := by
  have hfits := (h.fits domain).cons (t.interval clock (.findIPsForDomain domain ipv4Enable ipv6Enable))
  unfold Tracked.record at hfits
  cases hlookup : t.cache.ips.lookup domain with
  | none =>
      simpa only [Tracked.step, CacheController.step, CacheController.search, hlookup, Option.isSome_none,
        Bool.false_eq_true, if_false] using h.addCall domain _
  | some record =>
      rw [hlookup] at hfits
      have hsearch := hfits.search (ipv4Enable && ipv6Enable) (ClassicNameServer.enabled ipv4Enable ipv6Enable)
        { record, reads := t.cache.reads } hclock List.mem_cons_self (Nat.le_refl _) (le_of_eq (by
          simp only [interval, CacheController.step, CacheController.search, hlookup]))
      have hset := h.set domain hsearch t.cache.disableCache
        (t.cache.search clock domain ipv4Enable ipv6Enable).reads
      simpa only [Tracked.step, CacheController.step, CacheController.search, hlookup, Option.isSome_some,
        if_true, Function.update_eq_self] using hset

theorem step (h : t.Inv) (hclock : Monotone clock) (event : CacheEvent) : (t.step clock event).Inv := by
  cases event with
  | updateIP domain reqType reply ago => exact h.updateIP hclock domain reqType reply ago
  | findIPsForDomain domain ipv4Enable ipv6Enable => exact h.find hclock domain ipv4Enable ipv6Enable
  | cacheCleanup =>
      rintro domain record (hmem | rfl)
      · obtain ⟨⟨_, old⟩, hold, heq⟩ := List.mem_map.mp (List.mem_filter.mp hmem).1
        obtain ⟨rfl, rfl⟩ := Prod.mk.inj heq
        refine fun family r hr => h _ old (.inl hold) family r ?_
        cases family <;> exact (Option.filter_eq_some_iff.mp hr).1
      · exact fits_empty
  | read => exact h

end Tracked.Inv

/-! ### Calls -/

theorem Gathered.finish_spec {g : Gathered} (herrs : ∀ err ∈ g.errs, isRecordNotFound err = false)
    (hempty : g.allIPs = [] → 2 ≤ g.errs.length) : ∃ found, g.finish = some found ∧
      isRecordNotFound found.err = false ∧ found.ips = g.allIPs ∧ found.ttl = g.rTTL := by
  unfold Gathered.finish
  by_cases hnil : g.allIPs = []
  · obtain ⟨first, next, rest, hlist⟩ : ∃ first next rest, g.errs = first :: next :: rest := by
      match hlist : g.errs, hempty hnil with
      | first :: next :: rest, _ => exact ⟨first, next, rest, rfl⟩
    rw [if_neg (not_not_intro hnil), hlist]
    dsimp only
    split
    · exact ⟨_, rfl, herrs first (by rw [hlist]; exact List.mem_cons_self), hnil.symm, rfl⟩
    · exact ⟨_, rfl, rfl, hnil.symm, rfl⟩
  · rw [if_pos hnil]
    exact ⟨_, rfl, rfl, rfl, rfl⟩

/-- What `findIPsForDomain` returns for a record, given the readings of the clock. -/
structure Returns (record : Record) (families : List RecordType) (reading : RecordType → Nat)
    (found : Lookup) : Prop where
  ips : found.ips = families.flatMap fun family => ((record.get family).map IPRecord.addresses).getD []
  unexpired : ∀ family ∈ families, ∃ r, record.get family = some r ∧ reading family < r.expire ∧
    found.ttl * second ≤ r.expire - reading family + second

theorem search_one (clock : Nat → Nat) (record : Record) (reads : Nat) (family : RecordType)
    (reading : RecordType → Nat) (hreading : reading family = clock reads) :
    ∃ found, (Search.family clock false { record, reads } family).result = some found ∧
      ((isRecordNotFound found.err = true ∧ found.ips = []) ∨
        isRecordNotFound found.err = false ∧ Returns record [family] reading found) := by
  refine ⟨_, rfl, (getIPs_spec clock reads (record.get family)).imp_right ?_⟩
  rintro ⟨r, hr, hlt, httl, hips, herr⟩
  refine ⟨herr, hips.trans ?_, fun other hother => ?_⟩
  · simp only [List.flatMap_singleton, hr, Option.map_some, Option.getD_some]
  · rw [List.mem_singleton.mp hother, hreading]
    exact ⟨r, hr, hlt, httl⟩

theorem Search.result_eq (s : Search) : s.result = s.found.elim some Gathered.finish := by
  rw [Search.result]
  cases s.found <;> rfl

theorem search_both (clock : Nat → Nat) (record : Record) (reads : Nat) (reading : RecordType → Nat)
    (ha : reading .a = clock reads) (haaaa : reading .aaaa = clock (getIPs clock reads record.a).2.1) :
    ∃ found, ((Search.family clock true { record, reads } .a).family clock true .aaaa).result = some found ∧
      ((isRecordNotFound found.err = true ∧ found.ips = []) ∨
        isRecordNotFound found.err = false ∧ Returns record [.a, .aaaa] reading found) := by
  have hfirst := getIPs_spec clock reads record.a
  have hsecond := getIPs_spec clock (getIPs clock reads record.a).2.1 record.aaaa
  have hresult : ((Search.family clock true { record, reads } .a).family clock true .aaaa).result =
      (({} : Gathered).family true (getIPs clock reads record.a).2.2).elim some fun g =>
        (g.family true (getIPs clock (getIPs clock reads record.a).2.1 record.aaaa).2.2).elim some
          Gathered.finish := by
    rw [Search.result_eq]
    unfold Search.family
    dsimp only [Record.get]
    cases ({} : Gathered).family true (getIPs clock reads record.a).2.2 <;> rfl
  rw [hresult]
  clear hresult
  rw [← ha] at hfirst
  rw [← haaaa] at hsecond
  generalize getIPs clock (getIPs clock reads record.a).2.1 record.aaaa = second' at hsecond ⊢
  generalize getIPs clock reads record.a = first at hfirst ⊢
  obtain ⟨hnot, hips⟩ | ⟨r, hr, hlt, httl, hips, herr⟩ := hfirst
  · exact ⟨first.2.2, by simp [Gathered.family, hnot], .inl ⟨hnot, hips⟩⟩
  obtain ⟨hnot, hips'⟩ | ⟨r', hr', hlt', httl', hips', herr'⟩ := hsecond
  · exact ⟨second'.2.2, by simp [Gathered.family, herr, hnot], .inl ⟨hnot, hips'⟩⟩
  simp only [Gathered.family, herr, herr', Bool.not_true, Bool.or_false, Bool.false_eq_true, if_false]
  obtain ⟨found, hfinish, hfound, hall, hleast⟩ := Gathered.finish_spec (g := {
    allIPs := [] ++ first.2.2.ips ++ second'.2.2.ips
    errs :=
      if second'.2.2.ips = [] then
        (if first.2.2.ips = [] then [] ++ [first.2.2.err] else []) ++ [second'.2.2.err]
      else if first.2.2.ips = [] then [] ++ [first.2.2.err] else []
    rTTL := min second'.2.2.ttl (min first.2.2.ttl 300) }) (by grind) (fun hnil => by simp_all)
  refine ⟨found, hfinish, .inr ⟨hfound, ?_, fun family _ => ?_⟩⟩
  · rw [hall, hips, hips']
    simp [Record.get, hr, hr']
  · rw [hleast]
    cases family with
    | a =>
        have hle := (Nat.min_le_right second'.2.2.ttl _).trans (Nat.min_le_left first.2.2.ttl 300)
        exact ⟨r, hr, hlt, (Nat.mul_le_mul_right second hle).trans httl⟩
    | aaaa => exact ⟨r', hr', hlt', (Nat.mul_le_mul_right second (Nat.min_le_left _ _)).trans httl'⟩

namespace Tracked

variable {t : Tracked}

theorem search_spec (t : Tracked) (clock : Nat → Nat) (domain : Bytes) {ipv4Enable ipv6Enable : Bool}
    (henabled : ipv4Enable ∨ ipv6Enable) :
    ∃ found, (t.cache.search clock domain ipv4Enable ipv6Enable).result = some found ∧
      ((isRecordNotFound found.err = true ∧ found.ips = []) ∨
        isRecordNotFound found.err = false ∧ Returns (t.record domain)
          (ClassicNameServer.enabled ipv4Enable ipv6Enable) (t.reading clock domain ipv4Enable) found) := by
  unfold CacheController.search record
  cases hlookup : t.cache.ips.lookup domain with
  | none => exact ⟨_, rfl, .inl ⟨rfl, rfl⟩⟩
  | some record =>
      have hrecord : t.record domain = record := by rw [Tracked.record, hlookup, Option.getD_some]
      cases ipv4Enable <;> cases ipv6Enable
      · simp at henabled
      · exact search_one clock record t.cache.reads .aaaa _ rfl
      · exact search_one clock record t.cache.reads .a _ rfl
      · exact search_both clock record t.cache.reads _ rfl (by rw [reading, hrecord, if_pos rfl])

theorem le_reading (t : Tracked) (hclock : Monotone clock) (domain : Bytes) (ipv4Enable : Bool)
    (family : RecordType) : clock t.cache.reads ≤ t.reading clock domain ipv4Enable family := by
  cases family with
  | a => exact Nat.le_refl _
  | aaaa =>
      refine hclock ?_
      split
      · exact le_getIPs clock t.cache.reads _
      · exact Nat.le_refl _

theorem Inv.served (h : t.Inv) (hclock : Monotone clock) {event : CacheEvent}
    (hspaced : t.Spaced clock event) : t.Served clock event := by
  cases event with
  | findIPsForDomain domain ipv4Enable ipv6Enable =>
      intro henabled
      obtain ⟨found, hresult, hfound⟩ := t.search_spec clock domain henabled
      obtain ⟨hnot, hips⟩ | ⟨herr, hreturns⟩ := hfound
      · exact ⟨found, hresult, fun _ => hips, fun herr => absurd hnot (by rw [herr]; decide)⟩
      refine ⟨found, hresult, fun hnot => absurd hnot (by rw [herr]; decide), fun _ => ⟨?_, ?_⟩⟩
      · rw [hreturns.ips]
        refine List.flatMap_congr fun family hfamily => ?_
        obtain ⟨r, hr, -⟩ := hreturns.unexpired family hfamily
        obtain ⟨a, ha, hkeeps⟩ := h.fits domain family r hr
        rw [ha, hr, Option.map_some, Option.map_some, hkeeps.addresses]
      · intro family hfamily
        obtain ⟨r, hr, hlt, httl⟩ := hreturns.unexpired family hfamily
        obtain ⟨a, ha, hkeeps⟩ := h.fits domain family r hr
        refine ⟨r, a, hr, ha, hlt, httl, fun _ => ?_⟩
        by_contra hlate
        have hexpired := hkeeps.expires _ (hspaced family hfamily a ha (not_le.mp hlate))
        exact absurd hlt (hexpired.trans (t.le_reading hclock domain ipv4Enable family)).not_gt
  | _ => trivial

end Tracked

end

/-- **Answers are served no longer than they may be if there is a pause.** After the lifetime of an answer, a
second without a call for the domain is enough. -/
theorem served_of_spaced (clock : Nat → Nat) (hclock : Monotone clock) (disableCache : Bool)
    (events : List CacheEvent)
    (hspaced : Along (Tracked.step clock) (Tracked.Spaced clock) { cache := { disableCache } } events) :
    Along (Tracked.step clock) (Tracked.Served clock) { cache := { disableCache } } events := by
  refine hspaced.imp (I := Tracked.Inv) (fun t event h => h.step hclock event)
    (fun t event h hspaced => h.served hclock hspaced) ?_
  rintro domain record (hmem | rfl)
  · cases hmem
  · exact fits_empty

/-- An answer with one address and a TTL of one second. -/
def shortReply : Reply := ⟨0, false, 0, [⟨1, .a ⟨[10, 0, 0, 1], rfl⟩⟩]⟩

theorem stored_eq {stored : Option Stored} {a : Stored} (ha : stored = some a)
    (hstored : stored.map (fun a => (a.received, a.reply)) = some (0, shortReply)) :
    a.received = 0 ∧ a.reply = shortReply := by
  rw [ha] at hstored
  exact Prod.mk.inj (Option.some.inj hstored)

/-- The last call comes long after the answer, which was kept for a second more; the second before it is quiet. -/
theorem served_after_pause : Along (Tracked.step fun n => n * 500000000) (Tracked.Served fun n => n * 500000000)
    { cache := { disableCache := false } }
    [.updateIP (ascii "a") .a shortReply 0, .findIPsForDomain (ascii "a") true false, .read, .read, .read, .read,
      .findIPsForDomain (ascii "a") true false] := by
  refine served_of_spaced _ (fun _ _ h => Nat.mul_le_mul_right _ h) false _
    ⟨trivial, ?_, trivial, trivial, trivial, trivial, ?_, trivial⟩
  · intro family hfamily a ha hlate
    cases List.mem_singleton.mp hfamily
    obtain ⟨hreceived, hreply⟩ := stored_eq ha (by decide)
    rw [Stored.ends, hreceived, hreply] at hlate
    exact absurd hlate (by decide)
  · intro family hfamily a ha _
    cases List.mem_singleton.mp hfamily
    obtain ⟨hreceived, hreply⟩ := stored_eq ha (by decide)
    rw [Stored.ends, hreceived, hreply]
    exact ⟨second, by decide, by decide, by decide⟩

/-- The fourth of the calls comes more than three seconds after an answer that lasts for one. -/
theorem not_served_half_seconds : ¬ Along (Tracked.step fun n => n * 500000000)
    (Tracked.Served fun n => n * 500000000) { cache := { disableCache := false } }
    [.updateIP (ascii "a") .a shortReply 0, .findIPsForDomain (ascii "a") true false,
      .findIPsForDomain (ascii "a") true false, .findIPsForDomain (ascii "a") true false,
      .findIPsForDomain (ascii "a") true false] := by
  rintro ⟨-, -, -, -, hserved, -⟩
  obtain ⟨found, hfound, -, hserved⟩ := hserved (.inl rfl)
  have herr := congrArg (Option.map fun found => isRecordNotFound found.err) hfound
  obtain ⟨r, a, -, ha, -, -, htime⟩ := (hserved (Option.some.inj (herr.symm.trans (by decide)))).2 .a
    List.mem_cons_self
  obtain ⟨hreceived, hreply⟩ := stored_eq ha (by decide)
  rw [Stored.addresses, Stored.ends, hreceived, hreply] at htime
  exact absurd (htime (by decide)) (by decide)

end V2RootCore.Dns
