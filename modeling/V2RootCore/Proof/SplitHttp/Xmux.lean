import V2RootCore.SplitHttp.Xmux
import V2RootCore.Transition
import V2RootCore.Proof.Crypto.Rand

/-!
# The limits of XMUX

A client that is returned again passed the checks of the first loop and the one for its open usage. A client with
a drawn number of uses keeps the sum of its returns and of what is left, and without a limit for the concurrency
a client is only made while there are fewer than the limit for the connections.
-/

namespace V2RootCore.SplitHttp

open Go

/-- A client that may be returned again. -/
structure XmuxClient.Usable (xmuxClient : XmuxClient) (now : Nat) (concurrency : Int) : Prop where
  not_closed : xmuxClient.closed = false
  not_past : ∀ t, xmuxClient.unreusableAt = some t → now ≤ t
  has_requests : 0 < xmuxClient.leftRequests
  has_room : 0 < concurrency → xmuxClient.openUsage < concurrency

theorem RangeConfig.rand_ok (c : RangeConfig) (number : Nat) : ∃ n, c.rand number = .ok n := by
  have hlow := c.low.le_toInt
  have hlow' := c.low.toInt_lt
  have hhigh := c.high.le_toInt
  have hhigh' := c.high.toInt_lt
  have hdrawable : Crypto.Drawable c.low.toInt c.high.toInt := by constructor <;> omega
  obtain ⟨n, hn, -⟩ := Crypto.randBetween_spec hdrawable number
  exact ⟨int32 n, by rw [RangeConfig.rand, hn]; rfl⟩

namespace State

variable {s : State} {pointer : Nat}

theorem removeLoop_eq (s : State) (i : Nat) (xmuxClients : List Nat) :
    s.removeLoop i xmuxClients =
      xmuxClients.take i ++ (xmuxClients.drop i).filter fun pointer => !s.removes pointer := by
  fun_induction removeLoop s i xmuxClients with
  | case1 i xmuxClients hlt hremoves ih =>
      rw [ih, List.drop_eq_getElem_cons hlt, List.filter_cons_of_neg (by simp [hremoves])]
      have hlength : (xmuxClients.take i).length = i := List.length_take_of_le hlt.le
      rw [List.take_left' hlength, List.drop_left' hlength]
  | case2 i xmuxClients hlt hkept ih =>
      rw [ih, List.drop_eq_getElem_cons hlt, List.filter_cons_of_pos (by simp [hkept]),
        List.take_succ_eq_append_getElem hlt, List.append_assoc, List.singleton_append]
  | case3 i xmuxClients hend =>
      rw [List.take_of_length_le (not_lt.mp hend), List.drop_of_length_le (not_lt.mp hend), List.filter_nil,
        List.append_nil]

/-- The state in which a client is chosen. -/
def swept (s : State) : State :=
  { s with manager.xmuxClients := s.manager.xmuxClients.filter fun pointer => !s.removes pointer }

theorem getXmuxClient_eq (s : State) (draws : Draws) : s.getXmuxClient draws = s.swept.choose draws := by
  rw [getXmuxClient, removeLoop_eq]
  rfl

/-- What `newXmuxClient` adds. -/
theorem newXmuxClient_spec (s : State) (draws : Draws) : ∃ xmuxClient : XmuxClient,
    (0 < xmuxClient.reuseTimes → xmuxClient.leftUsage = xmuxClient.reuseTimes - 1) ∧
      s.newXmuxClient draws = .ok ({ s with
        manager.xmuxClients := s.manager.xmuxClients ++ [s.memory.length]
        memory := s.memory ++ [xmuxClient] }, s.memory.length) := by
  obtain ⟨reuseTimes, hreuse⟩ := s.manager.xmuxConfig.getNormalizedCMaxReuseTimes.rand_ok draws.reuseTimes
  obtain ⟨requestTimes, hrequest⟩ :=
    s.manager.xmuxConfig.getNormalizedHMaxRequestTimes.rand_ok draws.requestTimes
  obtain ⟨reusableSecs, hreusable⟩ :=
    s.manager.xmuxConfig.getNormalizedHMaxReusableSecs.rand_ok draws.reusableSecs
  refine ⟨_, fun hpos => ?_, by rw [newXmuxClient, hreuse, hrequest, hreusable]; rfl⟩
  exact if_pos hpos

theorem mem_eligible : pointer ∈ s.eligible ↔
    pointer ∈ s.manager.xmuxClients ∧ (0 < s.manager.concurrency → s.hasRoom pointer = true) := by
  unfold eligible
  split_ifs with hpos
  · rw [List.mem_filter, forall_prop_of_true hpos]
  · rw [forall_prop_of_false hpos, and_true]

/-- What a call does: it makes a client, or it returns one of those that are left. -/
theorem choose_cases (s : State) (draws : Draws) :
    (s.choose draws = s.newXmuxClient draws ∧ (0 < s.manager.connections → s.manager.concurrency ≤ 0 →
        s.manager.xmuxClients.length < s.manager.connections)) ∨
      ∃ pointer ∈ s.manager.xmuxClients, (0 < s.manager.concurrency → s.hasRoom pointer = true) ∧
        s.choose draws = .ok ({ s with memory := s.memory.modify pointer reuse }, pointer) := by
  unfold choose
  split_ifs with hempty hroom hnone
  · exact .inl ⟨rfl, fun hpos _ => by omega⟩
  · exact .inl ⟨rfl, fun _ _ => hroom.2⟩
  · refine .inl ⟨rfl, fun _ hzero => ?_⟩
    rw [eligible, if_neg hzero.not_gt] at hnone
    exact absurd hnone hempty
  · have hlt := Nat.mod_lt draws.index (Nat.pos_of_ne_zero hnone)
    obtain ⟨hmem, hfree⟩ := mem_eligible.mp (List.getElem_mem hlt)
    refine .inr ⟨_, hmem, hfree, ?_⟩
    rw [List.getElem?_eq_getElem hlt]

end State

namespace History

/-- The invariant of a run. -/
structure Sound (h : History) : Prop where
  held : ∀ pointer ∈ h.manager.xmuxClients, pointer < h.memory.length
  made : ∀ pointer ∈ h.returned, pointer < h.memory.length
  uses : ∀ pointer xmuxClient, h.memory[pointer]? = some xmuxClient → 0 < xmuxClient.reuseTimes →
    0 ≤ xmuxClient.leftUsage ∧ (h.returned.count pointer : Int) + xmuxClient.leftUsage = xmuxClient.reuseTimes
  connections : 0 < h.manager.connections → h.manager.concurrency ≤ 0 →
    h.manager.xmuxClients.length ≤ h.manager.connections

variable {h : History}

theorem Sound.sweep (hsound : Sound h) : Sound { h with toState := h.swept } where
  held pointer hpointer := hsound.held pointer (List.mem_filter.mp hpointer).1
  made := hsound.made
  uses := hsound.uses
  connections hpos hzero := by
    have hle : (h.swept.manager.xmuxClients.length : Int) ≤ h.manager.xmuxClients.length :=
      Nat.cast_le.mpr (List.length_filter_le _ _)
    exact hle.trans (hsound.connections hpos hzero)

/-- What the transport does to a client leaves its uses alone. -/
theorem Sound.modify (hsound : Sound h) (pointer : Nat) {f : XmuxClient → XmuxClient}
    (hf : ∀ xmuxClient, (f xmuxClient).leftUsage = xmuxClient.leftUsage ∧
      (f xmuxClient).reuseTimes = xmuxClient.reuseTimes) :
    Sound { h with memory := h.memory.modify pointer f } where
  held := by simpa using hsound.held
  made := by simpa using hsound.made
  uses p xmuxClient hp hpos := by
    rw [List.getElem?_modify] at hp
    obtain ⟨before, hbefore, rfl⟩ := Option.map_eq_some_iff.mp hp
    have huses := hsound.uses p before hbefore
    split_ifs at hpos ⊢
    · rw [(hf before).1, (hf before).2] at *
      exact huses hpos
    · exact huses hpos
  connections := hsound.connections

theorem Sound.create (hsound : Sound h) {xmuxClient : XmuxClient}
    (huses : 0 < xmuxClient.reuseTimes → xmuxClient.leftUsage = xmuxClient.reuseTimes - 1)
    (hroom : 0 < h.manager.connections → h.manager.concurrency ≤ 0 →
      h.manager.xmuxClients.length < h.manager.connections) :
    Sound { h with
      manager.xmuxClients := h.manager.xmuxClients ++ [h.memory.length]
      memory := h.memory ++ [xmuxClient]
      returned := h.memory.length :: h.returned } where
  held := by
    intro pointer hpointer
    rw [List.length_append, List.length_singleton]
    obtain hold | hnew := List.mem_append.mp hpointer
    · exact (hsound.held pointer hold).trans (Nat.lt_succ_self _)
    · exact (List.mem_singleton.mp hnew).trans_lt (Nat.lt_succ_self _)
  made := by
    intro pointer hpointer
    rw [List.length_append, List.length_singleton]
    obtain rfl | hold := List.mem_cons.mp hpointer
    · exact Nat.lt_succ_self _
    · exact (hsound.made pointer hold).trans (Nat.lt_succ_self _)
  uses p client hp hpos := by
    dsimp only at hp ⊢
    rw [List.count_cons]
    by_cases hlt : p < h.memory.length
    · rw [List.getElem?_append_left hlt] at hp
      have hne : (h.memory.length == p) = false := beq_false_of_ne hlt.ne'
      rw [hne, if_neg Bool.false_ne_true]
      exact hsound.uses p client hp hpos
    · rw [List.getElem?_append_right (not_lt.mp hlt)] at hp
      obtain ⟨hindex, rfl⟩ := List.getElem?_eq_some_iff.mp hp
      have hlast : p = h.memory.length := by
        rw [List.length_singleton] at hindex
        omega
      have hcount : h.returned.count p = 0 :=
        List.count_eq_zero.mpr fun hmem => hlt (hsound.made p hmem)
      simp only [List.getElem_singleton] at hpos ⊢
      rw [hcount, hlast, huses hpos, beq_self_eq_true, if_pos rfl]
      omega
  connections hpos hzero := by
    have hlt := hroom hpos hzero
    dsimp only at hpos hzero ⊢
    rw [List.length_append, List.length_singleton]
    omega

/-- A client that is returned again has a use left, if it has a number of uses. -/
theorem Sound.reuse (hsound : Sound h) {pointer : Nat} (hpointer : pointer < h.memory.length)
    (hleft : ∀ xmuxClient, h.memory[pointer]? = some xmuxClient → xmuxClient.leftUsage ≠ 0) :
    Sound { h with memory := h.memory.modify pointer State.reuse, returned := pointer :: h.returned } where
  held := by simpa using hsound.held
  made := by
    intro p hp
    rw [List.length_modify]
    obtain rfl | hold := List.mem_cons.mp hp
    · exact hpointer
    · exact hsound.made p hold
  uses p client hp hpos := by
    rw [List.getElem?_modify] at hp
    obtain ⟨before, hbefore, rfl⟩ := Option.map_eq_some_iff.mp hp
    dsimp only
    rw [List.count_cons]
    by_cases hsame : pointer = p
    · subst hsame
      have hne := hleft before hbefore
      rw [if_pos rfl] at hpos ⊢
      rw [beq_self_eq_true, if_pos rfl]
      unfold State.reuse at hpos ⊢
      have huses := hsound.uses pointer before hbefore (by split_ifs at hpos <;> exact hpos)
      have hused : 0 < before.leftUsage := lt_of_le_of_ne huses.1 hne.symm
      rw [if_pos hused]
      constructor
      · exact Int.sub_nonneg_of_le hused
      · push_cast
        linarith [huses.2]
    · rw [if_neg hsame] at hpos ⊢
      rw [beq_false_of_ne hsame, if_neg Bool.false_ne_true]
      exact hsound.uses p before hbefore hpos
  connections := hsound.connections

/-- What `removes` leaves. -/
theorem usable_of_mem_swept {pointer : Nat} {xmuxClient : XmuxClient} {s : State}
    (hmem : pointer ∈ s.swept.manager.xmuxClients) (hclient : s.memory[pointer]? = some xmuxClient)
    (hroom : 0 < s.manager.concurrency → s.hasRoom pointer = true) :
    xmuxClient.Usable s.now s.manager.concurrency ∧ xmuxClient.leftUsage ≠ 0 := by
  have hkept := (List.mem_filter.mp hmem).2
  simp only [State.removes, hclient, Option.any_some, Bool.not_eq_eq_eq_not, Bool.not_true, Bool.or_eq_false_iff,
    decide_eq_false_iff_not, not_le] at hkept
  obtain ⟨⟨⟨hclosed, hleft⟩, hrequests⟩, hpast⟩ := hkept
  refine ⟨⟨hclosed, fun t ht => ?_, hrequests, fun hpos => ?_⟩, hleft⟩
  · rw [ht, Option.any_some, decide_eq_false_iff_not] at hpast
    exact not_lt.mp hpast
  · have := hroom hpos
    rwa [State.hasRoom, hclient, Option.any_some, decide_eq_true_eq] at this

/-- A call returns a client that may be returned again, or a new one, and keeps the invariant. -/
theorem Sound.get (hsound : Sound h) (draws : Draws) : ∃ s pointer,
    h.getXmuxClient draws = .ok (s, pointer) ∧
      (∀ xmuxClient, h.memory[pointer]? = some xmuxClient →
        xmuxClient.Usable h.now h.manager.concurrency) ∧
      Sound { toState := s, returned := pointer :: h.returned } := by
  rw [State.getXmuxClient_eq]
  obtain ⟨hnew, hroom⟩ | ⟨pointer, hmem, hroom, heq⟩ := h.swept.choose_cases draws
  · obtain ⟨xmuxClient, huses, hcreate⟩ := h.swept.newXmuxClient_spec draws
    refine ⟨_, _, hnew.trans hcreate, fun old hold => ?_, hsound.sweep.create huses hroom⟩
    exact absurd (List.getElem?_eq_some_iff.mp hold).1 (lt_irrefl h.memory.length)
  · have husable : ∀ xmuxClient, h.memory[pointer]? = some xmuxClient →
        xmuxClient.Usable h.now h.manager.concurrency ∧ xmuxClient.leftUsage ≠ 0 :=
      fun xmuxClient hclient => usable_of_mem_swept hmem hclient hroom
    refine ⟨_, _, heq, fun xmuxClient hclient => (husable xmuxClient hclient).1, ?_⟩
    exact hsound.sweep.reuse (hsound.sweep.held pointer hmem) fun xmuxClient hclient =>
      (husable xmuxClient hclient).2

theorem Sound.step (hsound : Sound h) (event : Event) : Sound (h.step event) := by
  cases event with
  | get draws =>
      obtain ⟨s, pointer, heq, -, hnext⟩ := hsound.get draws
      rw [History.step, heq]
      exact hnext
  | usage pointer delta => exact hsound.modify pointer fun _ => ⟨rfl, rfl⟩
  | request pointer delta => exact hsound.modify pointer fun _ => ⟨rfl, rfl⟩
  | close pointer => exact hsound.modify pointer fun _ => ⟨rfl, rfl⟩
  | advance duration => exact ⟨hsound.held, hsound.made, hsound.uses, hsound.connections⟩

/-- The limits in one state of a run. -/
structure WithinLimits (h : History) : Prop where
  returns : ∀ draws, ∃ s pointer, h.getXmuxClient draws = .ok (s, pointer) ∧
    ∀ xmuxClient, h.memory[pointer]? = some xmuxClient → xmuxClient.Usable h.now h.manager.concurrency
  reuses : ∀ pointer xmuxClient, h.memory[pointer]? = some xmuxClient → 0 < xmuxClient.reuseTimes →
    (h.returned.count pointer : Int) ≤ xmuxClient.reuseTimes
  holds : 0 < h.manager.connections → h.manager.concurrency ≤ 0 →
    h.manager.xmuxClients.length ≤ h.manager.connections

theorem Sound.withinLimits (hsound : Sound h) : WithinLimits h where
  returns draws := by
    obtain ⟨s, pointer, heq, husable, -⟩ := hsound.get draws
    exact ⟨s, pointer, heq, husable⟩
  reuses pointer xmuxClient hclient hpos := by
    have huses := hsound.uses pointer xmuxClient hclient hpos
    linarith [huses.1, huses.2]
  holds := hsound.connections

/-- **XMUX keeps its limits.** A manager is made for every configuration and all draws, and after any sequence of
calls, changes of counters, closed connections and advances of the clock each next call returns a client, one
that may be used if it is not new; no client was returned more often than was drawn for it; and without a limit
for the concurrency there are at most as many clients as the limit for the connections. -/
theorem xmux_withinLimits (xmuxConfig : XmuxConfig) (concurrency connections now : Nat) (events : List Event) :
    ∃ manager, newXmuxManager xmuxConfig concurrency connections = .ok manager ∧
      WithinLimits (Transition.run History.step { manager, now } events) := by
  obtain ⟨c, hc⟩ := xmuxConfig.getNormalizedMaxConcurrency.rand_ok concurrency
  obtain ⟨n, hn⟩ := xmuxConfig.getNormalizedMaxConnections.rand_ok connections
  refine ⟨{ xmuxConfig, concurrency := c, connections := n }, by rw [newXmuxManager, hc, hn]; rfl, ?_⟩
  refine Sound.withinLimits (Transition.run_induction _ ?_ (fun _ event hsound => hsound.step event) events)
  exact ⟨fun _ hmem => absurd hmem List.not_mem_nil, fun _ hmem => absurd hmem List.not_mem_nil,
    fun _ _ hclient => absurd hclient (by simp), fun hpos _ => hpos.le⟩

end History

end V2RootCore.SplitHttp
