import V2RootCore.Dns.Servers
import V2RootCore.Proof.Strmatcher.MatcherGroup

/-!
# Which servers a domain is asked at

The numbers of the matchers follow the order of the configuration, and the table of infos grows before the
rules of the local server are added, so each number has its entry when the clients are sorted.
-/

namespace V2RootCore.Dns

open Go Strmatcher MatcherGroup

variable (compile : Bytes → Except Error (Bytes → Bool))

def NameServer.matchers (ns : NameServer) : List Matcher :=
  ns.domains.filterMap fun domain => (toStrMatcher compile domain).toOption

/-- The rules of all servers in the order of the configuration, with the places of the servers. -/
def rulesOf (servers : List NameServer) : List (Nat × Matcher) :=
  servers.zipIdx.flatMap fun entry => (entry.1.matchers compile).map (entry.2, ·)

def ServersConfig.matched (config : ServersConfig) (domain : Bytes) (idx : Nat) : Bool :=
  config.nameServer[idx]?.any fun ns => (ns.matchers compile).any fun m => m.accepts domain

/-- The servers with a matching rule, then those left for fallback, in the order of the configuration. -/
def ServersConfig.order (config : ServersConfig) (domain : Bytes) : List Nat :=
  let idxs := List.range (max 1 config.nameServer.length)
  let matched := idxs.filter (config.matched compile domain)
  let rest := idxs.filter fun idx =>
    !config.matched compile domain idx && !config.nameServer[idx]?.any NameServer.skipFallback
  let clients :=
    if config.disableFallback || config.disableFallbackIfMatch && matched ≠ [] then matched else matched ++ rest
  if clients = [] then [0] else clients

/-- Each rule has its entry, which is the number of a text of its server. -/
structure Listed (table : Table) (rules : List (Nat × Matcher)) (texts : List (List Bytes)) : Prop where
  group : table.domainMatcher = (addAll (rules.map Prod.snd)).1
  info : ∀ k rule, rules[k]? = some rule → ∃ domains idx, texts[rule.1]? = some domains ∧
    idx < domains.length ∧ table.matcherInfos[k + 1]? = some (some ⟨.ofNat rule.1, .ofNat idx⟩)

section Construction

variable {table : Table} {rules : List (Nat × Matcher)} {texts done : List (List Bytes)}

theorem Listed.updateDomain {domains : List Bytes} (h : Listed table rules (done ++ [domains]))
    (hroom : rules.length + 1 < table.matcherInfos.length) (hids : rules.length + 1 < 2 ^ 32) (m : Matcher)
    {more : List Bytes} {idx : Nat} (hmore : domains.length ≤ more.length) (hidx : idx < more.length) :
    ∃ table', table.updateDomain done.length idx m = .ok table' ∧
      Listed table' (rules ++ [(done.length, m)]) (done ++ [more]) ∧
      table'.matcherInfos.length = table.matcherInfos.length := by
  have hmidx : (table.domainMatcher.add m).2.toNat = rules.length + 1 := by
    rw [(count_add _ m).2, h.group, count_addAll, List.length_map,
      ← UInt32.ofNat_one, ← UInt32.ofNat_add]
    exact Nat.mod_eq_of_lt hids
  refine ⟨_, if_pos (hmidx ▸ hroom), ⟨?_, fun k rule hrule => ?_⟩, List.length_set⟩
  · rw [h.group, List.map_append, List.map_singleton, addAll_concat]
  · rw [hmidx]
    have hlt : k < rules.length + 1 := by
      have hlt := (List.getElem?_eq_some_iff.mp hrule).1
      simpa using hlt
    rcases Nat.lt_succ_iff_lt_or_eq.mp hlt with hlt | rfl
    · rw [List.getElem?_append_left hlt] at hrule
      obtain ⟨texts, idx', htexts, hidx', hinfo⟩ := h.info k rule hrule
      rw [List.getElem?_set_ne (by omega)]
      by_cases hown : rule.1 < done.length
      · rw [List.getElem?_append_left hown] at htexts ⊢
        exact ⟨texts, idx', htexts, hidx', hinfo⟩
      · have hlast : rule.1 = done.length := by
          have hlt := (List.getElem?_eq_some_iff.mp htexts).1
          simp at hlt
          omega
        rw [hlast, List.getElem?_concat_length] at htexts
        cases htexts
        exact ⟨more, idx', by simp [hlast], by omega, hinfo⟩
    · rw [List.getElem?_concat_length] at hrule
      cases hrule
      exact ⟨more, idx, by simp, hidx, List.getElem?_set_self hroom⟩

theorem RuleWalk.next_spec (walk : RuleWalk) (originalRules : List OriginalRule) (m : Matcher)
    (hcurr : walk.ruleCurr ≤ walk.rules.length) :
    walk.rules.length ≤ (walk.next originalRules m).rules.length ∧
      walk.ruleCurr < (walk.next originalRules m).rules.length ∧
      (walk.next originalRules m).ruleCurr ≤ (walk.next originalRules m).rules.length := by
  unfold next
  grind

theorem establishRules_spec (originalRules : List OriginalRule) (domains : List PriorityDomain)
    (walk : RuleWalk) (h : Listed table rules (done ++ [walk.rules])) (hcurr : walk.ruleCurr ≤ walk.rules.length)
    (hroom : rules.length + domains.length < table.matcherInfos.length)
    (hids : rules.length + domains.length < 2 ^ 32) :
    (∃ err, establishRules compile originalRules done.length domains walk table = .error err ∧
        err ≠ .panicked) ∨
      ∃ walk' table', establishRules compile originalRules done.length domains walk table =
          .ok (walk', table') ∧
        Listed table' (rules ++ (domains.filterMap fun domain => (toStrMatcher compile domain).toOption).map
          (done.length, ·)) (done ++ [walk'.rules]) ∧
        table'.matcherInfos.length = table.matcherInfos.length := by
  induction domains generalizing table rules walk with
  | nil => exact .inr ⟨walk, table, rfl, by simpa using h, rfl⟩
  | cons domain domains ih =>
      rw [List.length_cons] at hroom hids
      rw [establishRules]
      cases hmatcher : toStrMatcher compile domain with
      | error err => exact .inl ⟨_, rfl, nofun⟩
      | ok m =>
          obtain ⟨hmore, hidx, hnext⟩ := walk.next_spec originalRules m hcurr
          obtain ⟨table', hupdate, hlisted, hlength⟩ :=
            h.updateDomain (by omega) (by omega) m hmore hidx
          dsimp only
          rw [hupdate]
          have hrest := ih (walk.next originalRules m) hlisted hnext (by simp; omega) (by simp; omega)
          rw [hlength] at hrest
          simpa [List.filterMap_cons, hmatcher, Except.toOption] using hrest

variable {compile} {servers : List NameServer} {clients : List Client} {later : Nat}

theorem rulesOf_concat (servers : List NameServer) (ns : NameServer) :
    rulesOf compile (servers ++ [ns]) =
      rulesOf compile servers ++ (ns.matchers compile).map (servers.length, ·) := by
  simp [rulesOf, List.zipIdx_append]

theorem length_rulesOf_le (servers : List NameServer) :
    (rulesOf compile servers).length ≤ (servers.map fun ns => ns.domains.length).sum := by
  induction servers using List.reverseRecOn with
  | nil => exact Nat.le_refl 0
  | append_singleton servers ns ih =>
      have hle : (ns.matchers compile).length ≤ ns.domains.length := List.length_filterMap_le ..
      simp only [rulesOf_concat, List.length_append, List.length_map, List.map_append, List.sum_append,
        List.map_singleton, List.sum_singleton]
      omega

variable (compile) in
/-- The clients so far; there is room for as many rules as come later. -/
structure Built (servers : List NameServer) (clients : List Client) (table : Table) (later : Nat) : Prop where
  listed : Listed table (rulesOf compile servers) (clients.map Client.domains)
  skips : clients.map Client.skipFallback = servers.map NameServer.skipFallback
  room : (rulesOf compile servers).length + later < table.matcherInfos.length

theorem Built.length_eq (h : Built compile servers clients table later) : clients.length = servers.length := by
  simpa using congrArg List.length h.skips

theorem Listed.extend (h : Listed table rules texts) (infos : List (Option DomainMatcherInfo)) :
    Listed { table with matcherInfos := table.matcherInfos ++ infos } rules (texts ++ [[]]) := by
  refine ⟨h.group, fun k rule hrule => ?_⟩
  obtain ⟨domains, idx, htexts, hidx, hinfo⟩ := h.info k rule hrule
  exact ⟨domains, idx, by grind, hidx, by grind⟩

theorem Built.newClient {ns : NameServer}
    (h : Built compile servers clients table (ns.prioritizedDomain.length + later))
    (hids : (rulesOf compile servers).length + ns.domains.length < 2 ^ 32) :
    (∃ err, newClient compile clients.length ns table = .error err ∧ err ≠ .panicked) ∨
      ∃ client table', newClient compile clients.length ns table = .ok (client, table') ∧
        Built compile (servers ++ [ns]) (clients ++ [client]) table' later := by
  obtain ⟨infos, hinfos, hlength⟩ : ∃ infos, (if ns.isLocal then
      table.matcherInfos ++ List.replicate localTLDsAndDotlessDomains.length (some ⟨0, 0⟩)
      else table.matcherInfos) = table.matcherInfos ++ infos ∧
      ns.domains.length = ns.prioritizedDomain.length + infos.length := by
    unfold NameServer.domains
    split
    · exact ⟨_, rfl, by simp⟩
    · exact ⟨[], by simp, by simp⟩
  have hroom := h.room
  have hrules := establishRules_spec compile ns.rules ns.domains {} (h.listed.extend infos)
    (Nat.le_refl 0) (by simp only [List.length_append]; omega) hids
  rw [List.length_map] at hrules
  unfold Dns.newClient
  rw [hinfos]
  dsimp only
  obtain ⟨err, herr, hne⟩ | ⟨walk, table', hok, hlisted, hkeep⟩ := hrules
  · exact .inl ⟨err, by rw [herr], hne⟩
  · refine .inr ⟨_, table', by rw [hok], ?_, ?_, ?_⟩
    · rw [rulesOf_concat, ← h.length_eq, List.map_append]
      exact hlisted
    · rw [List.map_append, List.map_append, h.skips]
      rfl
    · have hle : (ns.matchers compile).length ≤ ns.domains.length := List.length_filterMap_le ..
      rw [rulesOf_concat, List.length_append, List.length_map, hkeep, List.length_append]
      omega

theorem Built.newClients (rest : List NameServer)
    (h : Built compile servers clients table (rest.map fun ns => ns.prioritizedDomain.length).sum)
    (hids : (rulesOf compile servers).length + (rest.map fun ns => ns.domains.length).sum < 2 ^ 32) :
    (∃ err, newClients compile rest clients table = .error err ∧ err ≠ .panicked) ∨
      ∃ clients' table', newClients compile rest clients table = .ok (clients', table') ∧
        Built compile (servers ++ rest) clients' table' 0 := by
  induction rest generalizing servers clients table with
  | nil => exact .inr ⟨clients, table, rfl, by simpa using h⟩
  | cons ns rest ih =>
      rw [List.map_cons, List.sum_cons] at h hids
      unfold Dns.newClients
      obtain ⟨err, herr, hne⟩ | ⟨client, table', hok, hbuilt⟩ := h.newClient (by omega)
      · refine .inl ⟨.base (ascii "failed to create client") err, ?_, nofun⟩
        rw [herr]
        cases err <;> first | rfl | exact absurd rfl hne
      · rw [hok]
        have hle : (ns.matchers compile).length ≤ ns.domains.length := List.length_filterMap_le ..
        have hrest := ih hbuilt (by rw [rulesOf_concat, List.length_append, List.length_map]; omega)
        rwa [List.append_assoc, List.singleton_append] at hrest

variable (compile) in
/-- What `New` makes of a configuration. -/
structure Made (config : ServersConfig) (dns : DNS) : Prop where
  listed : Listed ⟨dns.domainMatcher, dns.matcherInfos⟩ (rulesOf compile config.nameServer)
    (dns.clients.map Client.domains)
  length_eq : dns.clients.length = max 1 config.nameServer.length
  skips : ∀ idx : Nat,
    dns.clients[idx]?.any Client.skipFallback = config.nameServer[idx]?.any NameServer.skipFallback
  disableFallback : dns.disableFallback = config.disableFallback
  disableFallbackIfMatch : dns.disableFallbackIfMatch = config.disableFallbackIfMatch

variable (compile) in
theorem newDNS_spec (config : ServersConfig)
    (hids : (config.nameServer.map fun ns => ns.domains.length).sum < 2 ^ 32) :
    (∃ err, newDNS compile config = .error err ∧ err ≠ .panicked) ∨
      ∃ dns, newDNS compile config = .ok dns ∧ Made compile config dns ∧
        (rulesOf compile config.nameServer).length < 2 ^ 32 := by
  have hempty : Built compile [] [] ⟨{}, List.replicate
      ((config.nameServer.map fun ns => ns.prioritizedDomain.length).sum + 1) none⟩
      (config.nameServer.map fun ns => ns.prioritizedDomain.length).sum :=
    ⟨⟨rfl, nofun⟩, rfl, by simp [rulesOf]⟩
  unfold newDNS
  dsimp only
  obtain ⟨err, herr, hne⟩ | ⟨clients, table, hok, hbuilt⟩ :=
    hempty.newClients config.nameServer (by simpa [rulesOf] using hids)
  · exact .inl ⟨err, by rw [herr], hne⟩
  · have hlength : clients.length = config.nameServer.length := hbuilt.length_eq
    refine .inr ⟨_, by rw [hok], ⟨?_, ?_, ?_, rfl, rfl⟩, ?_⟩
    · split
      · next hnil =>
          have hservers : config.nameServer = [] := List.length_eq_zero_iff.mp (by simp [← hlength, hnil])
          exact ⟨hbuilt.listed.group, by simp [hservers, rulesOf]⟩
      · exact hbuilt.listed
    · rw [← hlength]
      split
      · next hnil => rw [hnil]; rfl
      · next hne => exact (Nat.max_eq_right (List.length_pos_iff.mpr hne)).symm
    · intro idx
      have hskips := congrArg (·[idx]?) hbuilt.skips
      simp only [List.getElem?_map, List.nil_append] at hskips
      split
      · next hnil =>
          have hservers : config.nameServer = [] := List.length_eq_zero_iff.mp (by simp [← hlength, hnil])
          cases idx <;> simp [hservers]
      · cases hclient : clients[idx]? <;> cases hns : config.nameServer[idx]? <;> simp_all
    · exact (length_rulesOf_le config.nameServer).trans_lt hids

end Construction

/-! ### Sorting -/

section Sorting

variable {compile} {servers : List NameServer} {rules : List (Nat × Matcher)} {domain : Bytes}

theorem mem_rulesOf {rule : Nat × Matcher} : rule ∈ rulesOf compile servers ↔
    ∃ ns, servers[rule.1]? = some ns ∧ rule.2 ∈ ns.matchers compile := by
  obtain ⟨i, m⟩ := rule
  simp only [rulesOf, List.mem_flatMap, List.mem_map, Prod.mk.injEq, Prod.exists, List.mk_mem_zipIdx_iff_getElem?]
  grind

theorem pairwise_rulesOf (servers : List NameServer) :
    (rulesOf compile servers).Pairwise fun first second => first.1 ≤ second.1 := by
  induction servers using List.reverseRecOn with
  | nil => exact .nil
  | append_singleton servers ns ih =>
      rw [rulesOf_concat, List.pairwise_append]
      refine ⟨ih, List.pairwise_map.mpr (List.pairwise_of_forall fun _ _ => Nat.le_refl _), ?_⟩
      intro first hfirst second hsecond
      obtain ⟨owner, howner, -⟩ := mem_rulesOf.mp hfirst
      obtain ⟨m, -, rfl⟩ := List.mem_map.mp hsecond
      exact (List.getElem?_eq_some_iff.mp howner).1.le

/-- The matching rules with their places. -/
def matching (rules : List (Nat × Matcher)) (domain : Bytes) : List ((Nat × Matcher) × Nat) :=
  rules.zipIdx.filter fun entry => entry.1.2.accepts domain

theorem mergeSort_matchInput (hrules : rules.length < 2 ^ 32) (hdomain : domain ≠ []) :
    ((addAll (rules.map Prod.snd)).1.matchInput domain).mergeSort =
      (matching rules domain).map fun entry => UInt32.ofNat (entry.2 + 1) := by
  have hperm := perm_matchInput_addAll (rules.map Prod.snd) hdomain
  have hpairwise := pairwise_addAll (rules.map Prod.snd) (by simpa using hrules)
  have hids : ((addAll (rules.map Prod.snd)).2.filter fun entry => entry.1.accepts domain).map
      Prod.snd = (matching rules domain).map fun entry => UInt32.ofNat (entry.2 + 1) := by
    rw [addAll_snd, List.zipIdx_map, matching]
    simp [List.filter_map, Function.comp_def]
  rw [← hids]
  refine List.Perm.eq_of_pairwise (fun a b _ _ hab hba => UInt32.le_antisymm hab hba)
    ((List.pairwise_mergeSort (fun a b c => ?_) (fun a b => ?_) _).imp of_decide_eq_true) ?_ ?_
  · simpa using UInt32.le_trans
  · simpa using UInt32.le_total a b
  · exact List.pairwise_map.mpr ((hpairwise.filter _).imp UInt32.le_of_lt)
  · exact (List.mergeSort_perm _ _).trans hperm

def useNew (used : List Nat) (idx : Nat) : List Nat := if idx ∈ used then used else used ++ [idx]

theorem foldl_useNew {idxs : List Nat} (hsorted : idxs.Pairwise (· ≤ ·)) :
    (idxs.foldl useNew []).Pairwise (· < ·) ∧ ∀ idx, idx ∈ idxs.foldl useNew [] ↔ idx ∈ idxs := by
  induction idxs using List.reverseRecOn with
  | nil => simp
  | append_singleton idxs idx ih =>
      obtain ⟨hsorted, -, hlast⟩ := List.pairwise_append.mp hsorted
      obtain ⟨hpairwise, hmem⟩ := ih hsorted
      rw [List.foldl_append, List.foldl_cons, List.foldl_nil, useNew]
      split
      · refine ⟨hpairwise, fun other => ?_⟩
        grind
      · refine ⟨List.pairwise_append.mpr ⟨hpairwise, List.pairwise_singleton _ _, ?_⟩, fun other => ?_⟩
        · intro first hfirst second hsecond
          have hle := hlast first ((hmem first).mp hfirst) second hsecond
          grind
        · simp [hmem]

theorem eq_filter_range {n : Nat} {idxs : List Nat} (hsorted : idxs.Pairwise (· < ·)) (p : Nat → Bool)
    (hmem : ∀ idx, idx ∈ idxs ↔ idx < n ∧ p idx) : idxs = (List.range n).filter p := by
  have hrange : ((List.range n).filter p).Pairwise (· < ·) := List.pairwise_lt_range.filter _
  refine List.Perm.eq_of_pairwise (fun a b _ _ hab hba => absurd hab hba.not_gt) hsorted hrange ?_
  refine (List.perm_ext_iff_of_nodup (hsorted.imp Nat.ne_of_lt) (hrange.imp Nat.ne_of_lt)).mpr fun idx => ?_
  rw [hmem, List.mem_filter, List.mem_range]

theorem useMatches_eq {dns : DNS}
    (h : Listed ⟨dns.domainMatcher, dns.matcherInfos⟩ rules (dns.clients.map Client.domains))
    (hrules : rules.length < 2 ^ 32) (hclients : dns.clients.length ≤ 2 ^ 16)
    (htexts : ∀ client ∈ dns.clients, client.domains.length ≤ 2 ^ 16) (entries : List ((Nat × Matcher) × Nat))
    (hentries : ∀ entry ∈ entries, rules[entry.2]? = some entry.1) (used : List Nat) :
    dns.useMatches (entries.map fun entry => UInt32.ofNat (entry.2 + 1)) used =
      .ok ((entries.map fun entry => entry.1.1).foldl useNew used) := by
  induction entries generalizing used with
  | nil => rfl
  | cons entry entries ih =>
      have hrule := hentries entry List.mem_cons_self
      have hlt := (List.getElem?_eq_some_iff.mp hrule).1
      obtain ⟨domains, idx, hdomains, hidx, hinfo⟩ := h.info _ _ hrule
      rw [List.getElem?_map, Option.map_eq_some_iff] at hdomains
      obtain ⟨client, hclient, rfl⟩ := hdomains
      have hclientIdx : (UInt16.ofNat entry.1.1).toNat = entry.1.1 :=
        Nat.mod_eq_of_lt ((List.getElem?_eq_some_iff.mp hclient).1.trans_le hclients)
      have hruleIdx : (UInt16.ofNat idx).toNat = idx :=
        Nat.mod_eq_of_lt (hidx.trans_le (htexts client (List.mem_of_getElem? hclient)))
      have hid : (UInt32.ofNat (entry.2 + 1)).toNat = entry.2 + 1 := Nat.mod_eq_of_lt (by omega)
      rw [List.map_cons, DNS.useMatches, hid, show dns.matcherInfos[entry.2 + 1]? = _ from hinfo]
      dsimp only
      rw [hclientIdx, hruleIdx, hclient]
      dsimp only
      rw [if_pos hidx, ih fun entry hentry => hentries entry (List.mem_cons_of_mem _ hentry)]
      rfl

theorem matching_fst (rules : List (Nat × Matcher)) (domain : Bytes) :
    ((matching rules domain).map fun entry => entry.1.1) =
      (rules.filter fun rule => rule.2.accepts domain).map Prod.fst := by
  conv_rhs => rw [← List.zipIdx_map_fst 0 rules, List.filter_map, List.map_map]
  rfl

theorem foldl_matching (config : ServersConfig) (domain : Bytes) {n : Nat} (hn : config.nameServer.length ≤ n) :
    ((matching (rulesOf compile config.nameServer) domain).map fun entry => entry.1.1).foldl useNew [] =
      (List.range n).filter (config.matched compile domain) := by
  rw [matching_fst]
  obtain ⟨hpairwise, hmem⟩ :=
    foldl_useNew (List.pairwise_map.mpr ((pairwise_rulesOf config.nameServer).filter fun rule =>
      rule.2.accepts domain))
  refine eq_filter_range hpairwise _ fun idx => ?_
  rw [hmem, ServersConfig.matched, Option.any_eq_true]
  simp only [List.mem_map, List.mem_filter, mem_rulesOf, List.any_eq_true, Prod.exists]
  constructor
  · rintro ⟨_, m, ⟨⟨ns, hns, hm⟩, haccepts⟩, rfl⟩
    exact ⟨(List.getElem?_eq_some_iff.mp hns).1.trans_le hn, ns, hns, m, hm, haccepts⟩
  · rintro ⟨-, ns, hns, m, hm, haccepts⟩
    exact ⟨idx, m, ⟨⟨ns, hns, hm⟩, haccepts⟩, rfl⟩

theorem Made.sortClients_eq {config : ServersConfig} {dns : DNS} (h : Made compile config dns)
    (hrules : (rulesOf compile config.nameServer).length < 2 ^ 32) (hclients : dns.clients.length ≤ 2 ^ 16)
    (htexts : ∀ client ∈ dns.clients, client.domains.length ≤ 2 ^ 16) (hdomain : domain ≠ []) :
    dns.sortClients domain = .ok (config.order compile domain) := by
  have hgroup : dns.domainMatcher = _ := h.listed.group
  have hentries (entry) (hentry : entry ∈ matching (rulesOf compile config.nameServer) domain) :
      (rulesOf compile config.nameServer)[entry.2]? = some entry.1 :=
    List.mem_zipIdx_iff_getElem?.mp (List.mem_filter.mp hentry).1
  have hne : dns.clients ≠ [] := by
    intro hnil
    have hlength := h.length_eq
    rw [hnil] at hlength
    simp at hlength
    omega
  rw [DNS.sortClients, hgroup, mergeSort_matchInput hrules hdomain,
    useMatches_eq h.listed hrules hclients htexts _ hentries,
    foldl_matching config domain (le_max_right 1 _), ServersConfig.order, h.disableFallback,
    h.disableFallbackIfMatch, h.length_eq]
  have hrest : ((List.range (max 1 config.nameServer.length)).filter fun idx =>
      idx ∉ (List.range (max 1 config.nameServer.length)).filter (config.matched compile domain) &&
        !dns.clients[idx]?.any Client.skipFallback) =
      (List.range (max 1 config.nameServer.length)).filter fun idx =>
        !config.matched compile domain idx && !config.nameServer[idx]?.any NameServer.skipFallback := by
    refine List.filter_congr fun idx hidx => ?_
    rw [h.skips]
    simp [List.mem_range.mp hidx, List.mem_filter]
  dsimp only
  rw [hrest, if_neg hne, ite_not]
  exact (apply_ite Except.ok _ _ _).symm

theorem nodup_order (config : ServersConfig) (domain : Bytes) : (config.order compile domain).Nodup := by
  have hrange (p : Nat → Bool) : ((List.range (max 1 config.nameServer.length)).filter p).Nodup :=
    List.nodup_range.filter p
  have hboth : ((List.range (max 1 config.nameServer.length)).filter (config.matched compile domain) ++
      (List.range (max 1 config.nameServer.length)).filter fun idx => !config.matched compile domain idx &&
        !config.nameServer[idx]?.any NameServer.skipFallback).Nodup := by
    refine List.nodup_append.mpr ⟨hrange _, hrange _, fun first hfirst second hsecond heq => ?_⟩
    have hmatched := (List.mem_filter.mp hfirst).2
    have hnot := (List.mem_filter.mp hsecond).2
    simp [← heq, hmatched] at hnot
  unfold ServersConfig.order
  dsimp only
  split <;> split
  · exact List.nodup_singleton 0
  · exact hrange _
  · exact List.nodup_singleton 0
  · exact hboth

end Sorting

/-- **The servers are asked in the order of the configuration, those with a matching rule first.** -/
theorem sortClients_eq_order (config : ServersConfig)
    (hrules : (config.nameServer.map fun ns => ns.domains.length).sum < 2 ^ 32) :
    newDNS compile config ≠ .error .panicked ∧ ∀ dns, newDNS compile config = .ok dns →
      dns.clients.length ≤ 2 ^ 16 → (∀ client ∈ dns.clients, client.domains.length ≤ 2 ^ 16) →
      ∀ domain ≠ [], dns.sortClients domain = .ok (config.order compile domain) ∧
        (config.order compile domain).Nodup := by
  obtain ⟨err, herr, hne⟩ | ⟨dns, hok, hmade, hlength⟩ := newDNS_spec compile config hrules
  · rw [herr]
    exact ⟨fun heq => hne (Except.error.inj heq), nofun⟩
  · rw [hok]
    refine ⟨nofun, ?_⟩
    rintro _ ⟨⟩ hclients htexts domain hdomain
    exact ⟨hmade.sortClients_eq hlength hclients htexts hdomain, nodup_order config domain⟩

theorem sortClients_two_servers :
    ∃ dns, newDNS (fun _ => .ok fun _ => false)
        { nameServer := [{ isLocal := true }, { prioritizedDomain := [⟨0, ascii "a.b"⟩] }] } = .ok dns ∧
      dns.sortClients (ascii "a.b") = .ok [1, 0] :=
  ⟨_, rfl, ((sortClients_eq_order (fun _ => .ok fun _ => false)
    { nameServer := [{ isLocal := true }, { prioritizedDomain := [⟨0, ascii "a.b"⟩] }] } (by decide)).2 _ rfl
      (by decide) (by decide) (ascii "a.b") (by decide)).1.trans (by decide)⟩

end V2RootCore.Dns
