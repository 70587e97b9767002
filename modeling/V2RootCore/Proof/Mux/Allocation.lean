import V2RootCore.Mux.Allocation
import Mathlib.Tactic.SplitIfs

/-!
# Session identifiers and the limit on connections

The counter of a manager is the number of sessions ever allocated, modulo `2 ^ 16`. A limit that is not
zero in 16 bits keeps it from wrapping around. Otherwise an identifier comes back after `2 ^ 16`
allocations, whatever became of the session that has it.
-/

namespace V2RootCore.Mux.Allocation

open Transition SessionManager

variable {strategy : ClientStrategy} {st : Allocation}

/-- The identifier that `Allocate` returns is that of no session in the manager. -/
def Unique (strategy : ClientStrategy) (st : Allocation) : Event → Prop
  | .allocate => ∀ s m, st.manager.allocate strategy st.allocated.length = some (s, m) →
      st.manager.sessions s.id = none
  | _ => True

/-- If the limit on connections is zero in 16 bits, then at each allocation the session that was
allocated `2 ^ 16` allocations before is no longer in the manager, and the limit, if there is one, is
not yet reached. -/
def Unwrapped (strategy : ClientStrategy) (st : Allocation) : Event → Prop
  | .allocate => strategy.maxConnection.toNat % 2 ^ 16 ≠ 0 ∨
      st.manager.allocate strategy st.allocated.length = none ∨
      ((∀ id s, st.manager.sessions id = some s → s.output + 2 ^ 16 ≠ st.allocated.length) ∧
        (0 < strategy.maxConnection → st.allocated.length < strategy.maxConnection.toNat))
  | _ => True

structure Numbered (strategy : ClientStrategy) (st : Allocation) : Prop where
  count : st.manager.count = UInt16.ofNat st.allocated.length
  sessions : ∀ id s, st.manager.sessions id = some s →
    id = UInt16.ofNat (s.output + 1) ∧ s.output < st.allocated.length
  limit : strategy.maxConnection.toNat % 2 ^ 16 ≠ 0 →
    st.allocated.length ≤ strategy.maxConnection.toNat % 2 ^ 16

def Recent (st : Allocation) : Prop :=
  ∀ id s, st.manager.sessions id = some s → st.allocated.length ≤ s.output + 2 ^ 16

structure Shrinks (st st' : Allocation) : Prop where
  count : st'.manager.count = st.manager.count
  length : st'.allocated.length = st.allocated.length
  sessions : ∀ id s, st'.manager.sessions id = some s → st.manager.sessions id = some s

variable {st' : Allocation}

theorem Shrinks.numbered (h : Shrinks st st') (hnumbered : Numbered strategy st) :
    Numbered strategy st' where
  count := by rw [h.count, h.length, hnumbered.count]
  sessions id s hsome := by
    rw [h.length]
    exact hnumbered.sessions id s (h.sessions id s hsome)
  limit hlimit := by
    rw [h.length]
    exact hnumbered.limit hlimit

theorem Shrinks.recent (h : Shrinks st st') (hrecent : Recent st) : Recent st' := by
  intro id s hsome
  rw [h.length]
  exact hrecent id s (h.sessions id s hsome)

theorem remove_sessions (m : SessionManager) (removed id : UInt16) (s : Session)
    (h : (m.remove removed).sessions id = some s) : m.sessions id = some s := by
  unfold remove at h
  split_ifs at h
  · exact h
  · by_cases hid : id = removed
    · simp [hid] at h
    · simpa [hid] using h

theorem remove_count (m : SessionManager) (removed : UInt16) : (m.remove removed).count = m.count := by
  unfold remove
  split_ifs <;> rfl

theorem shrinks_step (event : Event) (hevent : event ≠ .allocate) :
    Shrinks st (step strategy st event) := by
  cases event with
  | allocate => exact absurd rfl hevent
  | closeSession number =>
      rw [step, closeSession]
      split
      · exact ⟨rfl, rfl, fun _ _ h => h⟩
      · split_ifs
        · exact ⟨rfl, rfl, fun _ _ h => h⟩
        · exact ⟨remove_count _ _, by simp, remove_sessions _ _⟩
  | remove id => exact ⟨remove_count _ _, rfl, remove_sessions _ _⟩
  | close =>
      rw [step, close]
      split_ifs
      · exact ⟨rfl, rfl, fun _ _ h => h⟩
      · exact ⟨rfl, by simp, nofun⟩
  | closeIfNoSessionAndIdle checkSize checkCount =>
      rw [step, closeIfNoSessionAndIdle]
      split_ifs
      · exact ⟨rfl, rfl, fun _ _ h => h⟩
      · exact ⟨rfl, rfl, fun _ _ h => h⟩
      · exact ⟨rfl, rfl, nofun⟩

def newest (st : Allocation) : Session :=
  { id := UInt16.ofNat (st.allocated.length + 1), output := st.allocated.length }

structure Allocates (strategy : ClientStrategy) (st st' : Allocation) : Prop where
  allocate : st.manager.allocate strategy st.allocated.length = some (newest st, st'.manager)
  count : st'.manager.count = UInt16.ofNat (st.allocated.length + 1)
  closed : st'.manager.closed = st.manager.closed
  length : st'.allocated.length = st.allocated.length + 1
  sessions : st'.manager.sessions =
    Function.update st.manager.sessions (newest st).id (some (newest st))
  limit : strategy.maxConnection.toNat % 2 ^ 16 ≠ 0 →
    st.allocated.length < strategy.maxConnection.toNat % 2 ^ 16

theorem full_limit {m : SessionManager} (h : m.full strategy = false)
    (hlimit : strategy.maxConnection.toNat % 2 ^ 16 ≠ 0) :
    m.count.toNat < strategy.maxConnection.toNat % 2 ^ 16 := by
  simp only [full, Bool.or_eq_false_iff, Bool.and_eq_false_iff, decide_eq_false_iff_not,
    UInt16.lt_iff_toNat_lt, UInt16.le_iff_toNat_le, UInt32.toNat_toUInt16, UInt16.toNat_zero] at h
  omega

theorem allocate_cases (hnumbered : Numbered strategy st) :
    (st.manager.allocate strategy st.allocated.length = none ∧ step strategy st .allocate = st) ∨
      Allocates strategy st (step strategy st .allocate) := by
  cases hfull : st.manager.full strategy with
  | true =>
      have hnone : st.manager.allocate strategy st.allocated.length = none := by
        simp [allocate, hfull]
      exact Or.inl ⟨hnone, by simp [step, hnone]⟩
  | false =>
      have hcount : st.manager.count + 1 = UInt16.ofNat (st.allocated.length + 1) := by
        rw [hnumbered.count, UInt16.ofNat_add]
        rfl
      have hsome : st.manager.allocate strategy st.allocated.length =
          some (newest st, { st.manager with
            count := UInt16.ofNat (st.allocated.length + 1)
            sessions := Function.update st.manager.sessions (newest st).id (some (newest st)) }) := by
        simp [allocate, hfull, hcount, newest]
      refine Or.inr ?_
      simp only [step, hsome]
      refine ⟨hsome, rfl, rfl, by simp, rfl, fun hlimit => ?_⟩
      have hlt := full_limit hfull hlimit
      have hle := hnumbered.limit hlimit
      have hlength : st.allocated.length < 2 ^ 16 :=
        hle.trans_lt (Nat.mod_lt _ (by decide))
      rwa [hnumbered.count, UInt16.toNat_ofNat', Nat.mod_eq_of_lt hlength] at hlt

theorem Allocates.numbered (h : Allocates strategy st st') (hnumbered : Numbered strategy st) :
    Numbered strategy st' where
  count := by rw [h.count, h.length]
  sessions id s hsome := by
    rw [h.length]
    rw [h.sessions] at hsome
    by_cases hid : id = (newest st).id
    · obtain rfl : newest st = s := by simpa [hid] using hsome
      exact ⟨hid, Nat.lt_succ_self _⟩
    · obtain ⟨heq, hlt⟩ := hnumbered.sessions id s (by simpa [hid] using hsome)
      exact ⟨heq, by omega⟩
  limit hlimit := by
    rw [h.length]
    exact h.limit hlimit

theorem numbered_step (event : Event) (hnumbered : Numbered strategy st) :
    Numbered strategy (step strategy st event) := by
  by_cases hevent : event = .allocate
  · subst hevent
    obtain ⟨-, hsame⟩ | h := allocate_cases hnumbered
    · rwa [hsame]
    · exact h.numbered hnumbered
  · exact (shrinks_step event hevent).numbered hnumbered

theorem sessions_eq_none_iff (hnumbered : Numbered strategy st) (hrecent : Recent st) :
    st.manager.sessions (newest st).id = none ↔
      ∀ id s, st.manager.sessions id = some s → s.output + 2 ^ 16 ≠ st.allocated.length := by
  constructor
  · intro hnone id s hsome heq
    obtain ⟨rfl, -⟩ := hnumbered.sessions id s hsome
    have hid : UInt16.ofNat (s.output + 1) = (newest st).id := by
      rw [newest, ← heq, Nat.add_right_comm, UInt16.ofNat_add (s.output + 1)]
      simp
    rw [hid, hnone] at hsome
    cases hsome
  · intro hall
    rw [Option.eq_none_iff_forall_ne_some]
    intro s hsome
    obtain ⟨heq, hlt⟩ := hnumbered.sessions _ s hsome
    have hmod := congrArg UInt16.toNat heq
    have hle := hrecent _ s hsome
    have hne := hall _ s hsome
    simp only [newest, UInt16.toNat_ofNat'] at hmod
    omega

theorem Allocates.young (h : Allocates strategy st st')
    (hlimit : strategy.maxConnection.toNat % 2 ^ 16 ≠ 0) (s : Session) :
    s.output + 2 ^ 16 ≠ st.allocated.length := by
  have hlt := h.limit hlimit
  have := Nat.mod_lt strategy.maxConnection.toNat (show 0 < 2 ^ 16 by decide)
  omega

theorem recent_step (event : Event) (hnumbered : Numbered strategy st) (hrecent : Recent st)
    (hunique : Unique strategy st event) : Recent (step strategy st event) := by
  by_cases hevent : event = .allocate
  · subst hevent
    obtain ⟨-, hsame⟩ | h := allocate_cases hnumbered
    · rwa [hsame]
    · have hold := (sessions_eq_none_iff hnumbered hrecent).mp (hunique _ _ h.allocate)
      intro id s hsome
      rw [h.length]
      rw [h.sessions] at hsome
      by_cases hid : id = (newest st).id
      · obtain rfl : newest st = s := by simpa [hid] using hsome
        simp [newest]
      · have hsome' : st.manager.sessions id = some s := by simpa [hid] using hsome
        have hle := hrecent id s hsome'
        have hne := hold id s hsome'
        omega
  · exact (shrinks_step event hevent).recent hrecent

def Limited (strategy : ClientStrategy) (st : Allocation) : Prop :=
  0 < strategy.maxConnection → st.allocated.length ≤ strategy.maxConnection.toNat

theorem unique_and_limited_iff (event : Event) (hnumbered : Numbered strategy st)
    (hrecent : Recent st) (hlimited : Limited strategy st) :
    (Unique strategy st event ∧ Limited strategy (step strategy st event)) ↔
      Unwrapped strategy st event := by
  by_cases hevent : event = .allocate
  swap
  · have hlimited' : Limited strategy (step strategy st event) := by
      intro hpos
      rw [(shrinks_step event hevent).length]
      exact hlimited hpos
    cases event <;> first | exact absurd rfl hevent | exact iff_of_true ⟨trivial, hlimited'⟩ trivial
  subst hevent
  obtain ⟨hnone, hsame⟩ | h := allocate_cases hnumbered
  · refine iff_of_true ⟨fun s m hsome => ?_, by rwa [hsame]⟩ (Or.inr (Or.inl hnone))
    rw [hnone] at hsome
    cases hsome
  have hunique : Unique strategy st .allocate ↔ st.manager.sessions (newest st).id = none := by
    refine ⟨fun hunique => hunique _ _ h.allocate, fun hnone s m hsome => ?_⟩
    rw [h.allocate] at hsome
    obtain ⟨rfl, -⟩ := Prod.mk.inj (Option.some.inj hsome)
    exact hnone
  rw [hunique, sessions_eq_none_iff hnumbered hrecent, Limited, h.length]
  constructor
  · rintro ⟨hold, hlimit⟩
    exact Or.inr (Or.inr ⟨hold, fun hpos => hlimit hpos⟩)
  · rintro (hlimit | hnone | ⟨hold, hlimit⟩)
    · refine ⟨fun id s _ => h.young hlimit s, fun _ => ?_⟩
      exact (h.limit hlimit).trans_le (Nat.mod_le _ _)
    · rw [h.allocate] at hnone
      cases hnone
    · exact ⟨hold, fun hpos => hlimit hpos⟩

theorem length_le_run (events : List Event) (hnumbered : Numbered strategy st) :
    st.allocated.length ≤ (Transition.run (step strategy) st events).allocated.length := by
  induction events generalizing st with
  | nil => exact le_rfl
  | cons event events ih =>
      refine le_trans ?_ (ih (numbered_step event hnumbered))
      by_cases hevent : event = .allocate
      · subst hevent
        obtain ⟨-, hsame⟩ | h := allocate_cases hnumbered
        · rw [hsame]
        · rw [h.length]
          omega
      · rw [(shrinks_step event hevent).length]

theorem along_unique_iff (events : List Event) (hnumbered : Numbered strategy st)
    (hrecent : Recent st) (hlimited : Limited strategy st) :
    (Along (step strategy) (Unique strategy) st events ∧
      Limited strategy (Transition.run (step strategy) st events)) ↔
    Along (step strategy) (Unwrapped strategy) st events := by
  induction events generalizing st with
  | nil => exact iff_of_true ⟨trivial, hlimited⟩ trivial
  | cons event events ih =>
      have hnext := numbered_step event hnumbered
      have hone := unique_and_limited_iff event hnumbered hrecent hlimited
      constructor
      · rintro ⟨⟨hunique, halong⟩, hfinal⟩
        have hlimited' : Limited strategy (step strategy st event) := fun hpos =>
          (length_le_run events hnext).trans (hfinal hpos)
        have hrecent' := recent_step event hnumbered hrecent hunique
        exact ⟨hone.mp ⟨hunique, hlimited'⟩, (ih hnext hrecent' hlimited').mp ⟨halong, hfinal⟩⟩
      · rintro ⟨hcondition, halong⟩
        obtain ⟨hunique, hlimited'⟩ := hone.mpr hcondition
        have hrecent' := recent_step event hnumbered hrecent hunique
        obtain ⟨halong', hfinal⟩ := (ih hnext hrecent' hlimited').mpr halong
        exact ⟨⟨hunique, halong'⟩, hfinal⟩

section Unlimited

variable (hconcurrency : strategy.maxConcurrency = 0)
  (hconnection : strategy.maxConnection.toUInt16 = 0)

include hconcurrency hconnection

theorem allocate_unlimited (hnumbered : Numbered strategy st) (hclosed : st.manager.closed = false) :
    Allocates strategy st (step strategy st .allocate) := by
  obtain ⟨hnone, -⟩ | h := allocate_cases hnumbered
  · simp [allocate, full, hconcurrency, hconnection, hclosed] at hnone
  · exact h

theorem run_allocate (n : Nat) :
    Numbered strategy (run strategy (List.replicate n .allocate)) ∧
      (run strategy (List.replicate n .allocate)).manager.closed = false ∧
      (run strategy (List.replicate n .allocate)).allocated.length = n ∧
      (0 < n → n ≤ 2 ^ 16 →
        ((run strategy (List.replicate n .allocate)).manager.sessions 1).isSome) := by
  induction n with
  | zero => exact ⟨⟨rfl, nofun, fun _ => Nat.zero_le _⟩, rfl, rfl, nofun⟩
  | succ n ih =>
      obtain ⟨hnumbered, hclosed, hlength, hone⟩ := ih
      rw [run, List.replicate_succ', run_append, run_cons, run_nil,
        ← run]
      have h := allocate_unlimited hconcurrency hconnection hnumbered hclosed
      refine ⟨h.numbered hnumbered, h.closed.trans hclosed, by rw [h.length, hlength], ?_⟩
      intro _ hle
      rw [h.sessions]
      by_cases hid : 1 = (newest (run strategy (List.replicate n .allocate))).id
      · simp [hid]
      · rw [Function.update_of_ne hid]
        refine hone (Nat.pos_of_ne_zero ?_) (by omega)
        rintro rfl
        exact hid rfl

theorem allocate_again {n : Nat} (hpos : 0 < n) (hle : n ≤ 2 ^ 16) (hn : UInt16.ofNat (n + 1) = 1) :
    ∃ s m, (run strategy (List.replicate n .allocate)).manager.allocate strategy n = some (s, m) ∧
      ((run strategy (List.replicate n .allocate)).manager.sessions s.id).isSome := by
  obtain ⟨hnumbered, hclosed, hlength, hone⟩ := run_allocate hconcurrency hconnection n
  have h := (allocate_unlimited hconcurrency hconnection hnumbered hclosed).allocate
  rw [hlength] at h
  refine ⟨_, _, h, ?_⟩
  rw [newest, hlength, hn]
  exact hone hpos hle

end Unlimited

/-- **Unique identifiers and the limit on connections.** In a run of a new manager no allocation returns
the identifier of a session in the manager, and no more sessions are allocated than the limit says,
exactly if at each allocation the limit is not zero in 16 bits, or the session of `2 ^ 16` allocations
before is gone and the limit is not reached. -/
theorem allocate_unique_iff (strategy : ClientStrategy) (events : List Event) :
    (Along (step strategy) (Unique strategy) {} events ∧
      (0 < strategy.maxConnection →
        (run strategy events).allocated.length ≤ strategy.maxConnection.toNat)) ↔
    Along (step strategy) (Unwrapped strategy) {} events :=
  along_unique_iff events ⟨rfl, nofun, fun _ => Nat.zero_le _⟩ nofun fun _ => Nat.zero_le _

/-- The strategy of the reverse proxy's portal: the session allocated after `2 ^ 16` others gets the
identifier of the first one, which is still in the manager. And with a limit of `2 ^ 16` connections there
is one session more. -/
theorem allocate_not_unique :
    (∃ s m, (run {} (List.replicate (2 ^ 16) .allocate)).manager.allocate {} (2 ^ 16) = some (s, m) ∧
      ((run {} (List.replicate (2 ^ 16) .allocate)).manager.sessions s.id).isSome) ∧
    (run { maxConnection := 65536 } (List.replicate (2 ^ 16 + 1) .allocate)).allocated.length =
      2 ^ 16 + 1 :=
  ⟨allocate_again rfl rfl (by decide) le_rfl (by decide), (run_allocate rfl (by decide) _).2.2.1⟩

end V2RootCore.Mux.Allocation
