import V2RootCore.Observatory.HealthPing
import V2RootCore.Transition
import V2RootCore.Proof.Go.Slices

/-!
# Cached health statistics

The ring turned to its oldest slot holds the last values put, and the statistics do not depend on the order of the
slots. A cache that is returned has no value put after it was made and no slot that is outdated, so each value
counted then counts now; a value put at the very time the cache was made goes unnoticed.
-/

namespace V2RootCore.Observatory

open Go Transition HealthPingRTTS

/-- A ping that counts. -/
def Counts (now validity : Int) (rtt : PingRTT) : Prop := rtt.value ≠ 0 ∧ now - rtt.time ≤ validity

instance (now validity : Int) (rtt : PingRTT) : Decidable (Counts now validity rtt) :=
  inferInstanceAs (Decidable (_ ∧ _))

/-- The values of the pings that were answered. -/
def answered (values : List Int) : List Int := values.filter (· ≠ rttFailed)

/-- The statistics of a list of values. The maximum is at least zero and the sum is one of 64 bits. -/
def statisticsOf (values : List Int) : HealthPingStats where
  all := values.length
  fail := values.count rttFailed
  average := if answered values = [] then 0 else (int64 (answered values).sum).tdiv (answered values).length
  max := (answered values).foldr max 0
  min := if answered values = [] then 0 else (answered values).foldr min rttFailed

def counted (now validity : Int) (pings : List PingRTT) : List Int :=
  (pings.filter (Counts now validity)).map PingRTT.value

section Statistics

variable {now validity : Int}

theorem answered_cons_failed (values : List Int) : answered (rttFailed :: values) = answered values :=
  List.filter_cons_of_neg (by simp)

theorem answered_cons {value : Int} (h : value ≠ rttFailed) (values : List Int) :
    answered (value :: values) = value :: answered values :=
  List.filter_cons_of_pos (by simpa using h)

theorem counted_cons (rtt : PingRTT) (pings : List PingRTT) : counted now validity (rtt :: pings) =
    if Counts now validity rtt then rtt.value :: counted now validity pings else counted now validity pings := by
  unfold counted
  split_ifs with h
  · rw [List.filter_cons_of_pos (by simpa using h), List.map_cons]
  · rw [List.filter_cons_of_neg (by simpa using h)]

/-- What the loop has counted. -/
structure Tally.Holds (t : Tally) (values : List Int) : Prop where
  fail : t.fail = values.count rttFailed
  cnt : t.cnt = (answered values).length
  sum : t.sum = int64 (answered values).sum
  max : t.max = (answered values).foldr Max.max 0
  min : t.min = (answered values).foldr Min.min rttFailed

theorem Tally.holds_nil : Tally.Holds {} [] := ⟨rfl, rfl, rfl, rfl, rfl⟩

theorem Tally.Holds.add (now validity : Int) {t : Tally} {values : List Int} (h : t.Holds values) (rtt : PingRTT) :
    (t.add now validity rtt).Holds (if Counts now validity rtt then rtt.value :: values else values) := by
  unfold Tally.add
  by_cases hcounts : Counts now validity rtt
  · rw [if_pos hcounts, if_neg (not_or.mpr ⟨hcounts.1, not_lt.mpr hcounts.2⟩)]
    by_cases hfailed : rtt.value = rttFailed
    · rw [if_pos hfailed, hfailed]
      refine ⟨?_, ?_, ?_, ?_, ?_⟩
      · rw [List.count_cons_self, ← h.fail]
      all_goals rw [answered_cons_failed]
      exacts [h.cnt, h.sum, h.max, h.min]
    · have hcons := answered_cons hfailed values
      rw [if_neg hfailed]
      refine ⟨?_, ?_, ?_, ?_, ?_⟩
      · rw [List.count_cons_of_ne hfailed]
        exact h.fail
      · rw [hcons, List.length_cons, ← h.cnt]
      · rw [hcons, List.sum_cons, h.sum, int64, int64, Int.bmod_add_bmod, add_comm]
        rfl
      · rw [hcons, List.foldr_cons, ← h.max]
        dsimp only
        split_ifs <;> omega
      · rw [hcons, List.foldr_cons, ← h.min]
        dsimp only
        split_ifs <;> omega
  · rw [if_neg hcounts, if_pos]
    · exact h
    · rw [Counts, not_and_or, not_not, not_le] at hcounts
      exact hcounts

theorem Tally.Holds.foldl (now validity : Int) {t : Tally} {values : List Int} (h : t.Holds values)
    (pings : List PingRTT) :
    (pings.foldl (Tally.add now validity) t).Holds ((counted now validity pings).reverse ++ values) := by
  induction pings generalizing t values with
  | nil => exact h
  | cons rtt pings ih =>
      have hnext := ih (h.add now validity rtt)
      rw [List.foldl_cons, counted_cons]
      split_ifs with hcounts
      · rw [if_pos hcounts] at hnext
        rwa [List.reverse_cons, List.append_assoc, List.singleton_append]
      · rwa [if_neg hcounts] at hnext

theorem Tally.Holds.stats_eq {t : Tally} {values : List Int} (h : t.Holds values) :
    t.stats = statisticsOf values := by
  have hall : values.length = (answered values).length + values.count rttFailed := by
    rw [List.length_eq_countP_add_countP (fun value => decide (value ≠ rttFailed)), answered,
      ← List.countP_eq_length_filter, List.count]
    congr 2
    funext value
    by_cases hvalue : value = rttFailed <;> simp [hvalue]
  have hnil : t.cnt = 0 ↔ answered values = [] := by rw [h.cnt, List.length_eq_zero_iff]
  unfold Tally.stats statisticsOf
  split_ifs with hcnt hne hne
  · rw [h.fail, h.cnt, ← hall, h.max]
  · exact absurd (hnil.mp hcnt) hne
  · exact absurd (hnil.mpr hne) hcnt
  · rw [h.fail, h.cnt, ← hall, h.max, h.min, h.sum]

theorem statisticsOf_perm {values values' : List Int} (h : values.Perm values') :
    statisticsOf values = statisticsOf values' := by
  have hanswered : (answered values).Perm (answered values') := h.filter _
  have hnil : answered values = [] ↔ answered values' = [] := by
    rw [← List.length_eq_zero_iff, hanswered.length_eq, List.length_eq_zero_iff]
  unfold statisticsOf
  simp only [h.length_eq, h.count_eq, hnil, hanswered.sum_eq, hanswered.length_eq]
  congr 1
  · exact hanswered.foldr_eq 0
  · rw [hanswered.foldr_eq rttFailed]

theorem getStatistics_eq {h : HealthPingRTTS} {pings : List PingRTT} (hperm : h.rtts.Perm pings) (now : Int) :
    h.getStatistics now = statisticsOf (counted now h.validity pings) := by
  have hholds := Tally.holds_nil.foldl now h.validity h.rtts
  rw [getStatistics, hholds.stats_eq, List.append_nil]
  exact statisticsOf_perm ((List.reverse_perm _).trans ((hperm.filter _).map _))

end Statistics

section Ring

theorem rotate_set {α : Type} {l : List α} {i : Nat} (hi : i < l.length) (a : α) :
    (l.set i a).rotate (i + 1) = (l.rotate i).tail ++ [a] := by
  have hlength : (l.take i).length = i := List.length_take_of_le hi.le
  have hset : l.set i a = (l.take i ++ [a]) ++ l.drop (i + 1) := by
    rw [List.set_eq_take_append_cons_drop, if_pos hi, List.append_assoc, List.singleton_append]
  calc (l.set i a).rotate (i + 1)
      = ((l.take i ++ [a]) ++ l.drop (i + 1)).rotate (l.take i ++ [a]).length := by
        rw [hset, List.length_append, hlength, List.length_singleton]
    _ = l.drop (i + 1) ++ (l.take i ++ [a]) := List.rotate_append_length_eq _ _
    _ = (l.drop i ++ l.take i).tail ++ [a] := by
        rw [List.drop_eq_getElem_cons hi, List.cons_append, List.tail_cons, List.append_assoc]
    _ = (l.rotate i).tail ++ [a] := by rw [List.rotate_eq_drop_append_take hi.le]

/-- The last pings, with unused slots behind them. -/
def window (cap : Nat) (pings : List PingRTT) : List PingRTT :=
  (pings ++ List.replicate cap ({} : PingRTT)).take cap

theorem window_cons {cap : Nat} (hcap : 0 < cap) (ping : PingRTT) (pings : List PingRTT) :
    (window cap (ping :: pings)).reverse = (window cap pings).reverse.tail ++ [ping] := by
  have hlength : (window cap pings).length = cap := by simp [window]
  have hfront : (window cap pings).dropLast = (pings ++ List.replicate cap ({} : PingRTT)).take (cap - 1) := by
    rw [List.dropLast_eq_take, hlength, window, List.take_take, min_eq_left (Nat.sub_le _ _)]
  rw [List.tail_reverse, hfront, ← List.reverse_cons, ← List.take_succ_cons, Nat.sub_add_cancel hcap]
  rfl

theorem counted_window (now validity : Int) (cap : Nat) (pings : List PingRTT) :
    counted now validity (window cap pings) = counted now validity (pings.take cap) := by
  have hunused : ∀ n, counted now validity (List.replicate n ({} : PingRTT)) = [] := by
    intro n
    rw [counted, List.filter_eq_nil_iff.mpr, List.map_nil]
    intro ping hping
    simp [List.eq_of_mem_replicate hping, Counts]
  have happend : ∀ l l', counted now validity (l ++ l') = counted now validity l ++ counted now validity l' :=
    fun l l' => by rw [counted, List.filter_append, List.map_append]; rfl
  rw [window, List.take_append, List.take_replicate, happend, hunused, List.append_nil]

/-- The ring turned to its oldest slot is the window. -/
structure Ring (h : HealthPingRTTS) (pings : List PingRTT) : Prop where
  idx_range : -1 ≤ h.idx ∧ h.idx < h.cap
  length : h.rtts.length = h.cap
  turned : h.rtts.rotate (h.idx + 1).toNat = (window h.cap pings).reverse

variable {h : HealthPingRTTS} {pings : List PingRTT}

theorem ring_allocated (hnil : h.rtts = []) (hcap : 0 < h.cap) : Ring h.allocated [] := by
  rw [allocated, if_pos hnil]
  exact ⟨⟨le_rfl, by dsimp only; omega⟩, List.length_replicate, by simp [window]⟩

theorem Ring.allocated_eq (hring : Ring h pings) (hcap : 0 < h.cap) : h.allocated = h := by
  rw [allocated, if_neg]
  intro hnil
  have hlength := hring.length
  rw [hnil, List.length_nil] at hlength
  omega

theorem Ring.rtts_perm (hring : Ring h pings) : h.rtts.Perm (window h.cap pings) := by
  have hrotate := List.rotate_perm h.rtts (h.idx + 1).toNat
  rw [hring.turned] at hrotate
  exact hrotate.symm.trans (List.reverse_perm _)

/-- What `Put` does to the ring. -/
theorem Ring.put (hring : Ring h.allocated pings) (hcap : 0 < h.cap) (now d : Int) :
    Ring (h.put now d) ({ time := now, value := d } :: pings) ∧ 0 ≤ (h.put now d).idx ∧
      (h.put now d).rtts[(h.put now d).idx.toNat]? = some { time := now, value := d } := by
  have hcap' : h.allocated.cap = h.cap := by
    unfold allocated
    split_ifs <;> rfl
  obtain ⟨⟨hlow, hhigh⟩, hlength, hturned⟩ := hring
  rw [hcap'] at hhigh hlength hturned
  have hindex : h.allocated.calcIndex 1 = (((h.allocated.idx + 1).toNat % h.cap : Nat) : Int) := by
    rw [calcIndex, hcap']
    split_ifs with hwrap
    · rw [Nat.cast_one, Int.natCast_emod, Int.toNat_of_nonneg (by omega)]
    · rw [Nat.cast_one, Nat.mod_eq_of_lt (by omega), Int.toNat_of_nonneg (by omega)]
  have hlt : (h.allocated.idx + 1).toNat % h.cap < h.allocated.rtts.length := by
    rw [hlength]
    exact Nat.mod_lt _ hcap
  unfold HealthPingRTTS.put
  dsimp only
  rw [hindex, Int.toNat_natCast]
  refine ⟨⟨⟨by dsimp only; omega, by dsimp only; omega⟩, by rw [List.length_set, hlength, hcap'], ?_⟩, by omega, ?_⟩
  · dsimp only
    rw [hcap', window_cons hcap, ← hturned, ← Nat.cast_succ, Int.toNat_natCast, rotate_set hlt, ← hlength,
      List.rotate_mod]
  · rw [List.getElem?_set_self hlt]

end Ring

section Cache

variable {h : HealthPingRTTS} {pings : List PingRTT} {st : State}

/-- Every slot is looked at. -/
theorem not_outdated_of_findOutdated (hrange : 0 ≤ h.idx ∧ h.idx < h.cap) {now : Int}
    (hnone : h.findOutdated now = none) {i : Nat} (hi : i < h.cap) : h.outdated now i = false := by
  have hstep : ∃ step ∈ List.range' (h.cap - 1) (h.cap + 1), h.calcIndex step = i := by
    by_cases hle : h.idx ≤ i
    · refine ⟨(h.cap + i - h.idx).toNat, by rw [List.mem_range'_1]; omega, ?_⟩
      have hsum : h.idx + ((h.cap + i - h.idx).toNat : Int) = i + h.cap := by omega
      rw [calcIndex, hsum, if_pos (by omega), Int.add_emod_right, Int.emod_eq_of_lt] <;> omega
    · refine ⟨(2 * h.cap + i - h.idx).toNat, by rw [List.mem_range'_1]; omega, ?_⟩
      have hsum : h.idx + ((2 * h.cap + i - h.idx).toNat : Int) = i + h.cap + h.cap := by omega
      rw [calcIndex, hsum, if_pos (by omega), Int.add_emod_right, Int.add_emod_right,
        Int.emod_eq_of_lt] <;> omega
  obtain ⟨step, hmem, hindex⟩ := hstep
  have hall := List.find?_eq_none.mp hnone i (List.mem_map.mpr ⟨step, hmem, hindex⟩)
  rwa [Bool.not_eq_true] at hall

/-- A ping that is not outdated counts at the time of the cache if it counts now, and the other way round. -/
theorem counted_eq_of_fresh (hring : Ring h pings) (hidx : 0 ≤ h.idx) {now : Int}
    (hnone : h.findOutdated now = none) :
    counted h.lastUpdateAt h.validity (window h.cap pings) = counted now h.validity (window h.cap pings) := by
  unfold counted
  congr 1
  refine List.filter_congr fun ping hping => ?_
  obtain ⟨i, hi, rfl⟩ := List.getElem_of_mem (hring.rtts_perm.mem_iff.mpr hping)
  have hfresh := not_outdated_of_findOutdated ⟨hidx, hring.idx_range.2⟩ hnone (hring.length ▸ hi)
  rw [outdated, Int.toNat_natCast, List.getElem?_eq_getElem hi, Option.any_some,
    Bool.or_eq_false_iff, decide_eq_false_iff_not, decide_eq_false_iff_not] at hfresh
  rw [decide_eq_decide, Counts, Counts]
  refine and_congr_right fun _ => iff_of_true ?_ ?_ <;> omega

/-- The invariant of a run that begins with `Put`. -/
structure Sound (st : State) : Prop where
  cap_pos : 0 < st.results.cap
  ring : Ring st.results st.pings
  idx_nonneg : 0 ≤ st.results.idx
  last : ∃ last, st.results.rtts[st.results.idx.toNat]? = some last ∧ st.pings.head? = some last
  updated : st.results.stats.isSome → st.results.lastUpdateAt ≤ st.now
  cache : ∀ stats last, st.results.stats = some stats → st.pings.head? = some last →
    last.time ≤ st.results.lastUpdateAt →
      stats = statisticsOf (counted st.results.lastUpdateAt st.results.validity (window st.results.cap st.pings))

/-- The statistics of the last pings, as many as there is room for. -/
def current (st : State) : HealthPingStats :=
  statisticsOf (counted st.now st.results.validity (st.pings.take st.results.cap))

theorem Sound.get_eq (hsound : Sound st) : st.results.get st.now = current st := by
  rw [current, ← counted_window]
  exact getStatistics_eq hsound.ring.rtts_perm st.now

/-- What `GetWithCache` returns and leaves. -/
theorem Sound.getWithCache (hsound : Sound st) : ∃ results,
    st.results.getWithCache st.now = .ok (results, st.results.get st.now) ∧ Sound { st with results } := by
  obtain ⟨last, hlast, hhead⟩ := hsound.last
  have hrefresh : Sound { st with
      results.stats := some (st.results.getStatistics st.now), results.lastUpdateAt := st.now } := by
    refine ⟨hsound.cap_pos, ⟨hsound.ring.idx_range, hsound.ring.length, hsound.ring.turned⟩, hsound.idx_nonneg,
      hsound.last, fun _ => le_rfl, fun stats last hstats _ _ => ?_⟩
    rw [← Option.some.inj hstats]
    exact getStatistics_eq hsound.ring.rtts_perm st.now
  rw [HealthPingRTTS.getWithCache, hlast]
  cases hstats : st.results.stats with
  | none => exact ⟨_, rfl, hrefresh⟩
  | some stats =>
      dsimp only
      split_ifs with hstale
      · exact ⟨_, rfl, hrefresh⟩
      · rw [not_or, not_lt, Bool.not_eq_true, Option.isSome_eq_false_iff, Option.isNone_iff_eq_none] at hstale
        refine ⟨st.results, ?_, hsound⟩
        rw [hsound.cache stats last hstats hhead hstale.1,
          counted_eq_of_fresh hsound.ring hsound.idx_nonneg hstale.2, counted_window, hsound.get_eq, current]

/-- No value is put at the time the cache was made. -/
def Apart (st : State) (event : Event) : Prop :=
  ∀ d, event = .put d → st.results.stats.isSome → st.results.lastUpdateAt ≠ st.now

theorem cap_put (h : HealthPingRTTS) (now d : Int) : (h.put now d).cap = h.cap ∧
    (h.put now d).stats = h.stats ∧ (h.put now d).lastUpdateAt = h.lastUpdateAt := by
  unfold HealthPingRTTS.put allocated
  split_ifs <;> exact ⟨rfl, rfl, rfl⟩

theorem sound_put (hring : Ring st.results.allocated st.pings) (hcap : 0 < st.results.cap)
    (hupdated : st.results.stats.isSome → st.results.lastUpdateAt < st.now) (d : Int) :
    Sound (st.step (.put d)) := by
  obtain ⟨hput, hidx, hlast⟩ := hring.put hcap st.now d
  obtain ⟨hcapacity, hstats, hupdate⟩ := cap_put st.results st.now d
  refine ⟨hcapacity.symm ▸ hcap, hput, hidx, ⟨_, hlast, rfl⟩, fun hsome => ?_, fun stats last hsome hhead hle => ?_⟩
  · rw [State.step] at hsome ⊢
    rw [hstats] at hsome
    exact hupdate.trans_le (hupdated hsome).le
  · rw [State.step] at hsome hle
    have hlt := hupdated (by rw [← hstats, hsome]; rfl)
    rw [← Option.some.inj hhead, hupdate] at hle
    exact absurd hle hlt.not_ge

theorem Sound.step (hsound : Sound st) (event : Event) (hapart : Apart st event) : Sound (st.step event) := by
  cases event with
  | put d =>
      refine sound_put ?_ hsound.cap_pos (fun hsome => ?_) d
      · rw [hsound.ring.allocated_eq hsound.cap_pos]
        exact hsound.ring
      · exact lt_of_le_of_ne (hsound.updated hsome) (hapart d rfl hsome)
  | get => exact hsound
  | getWithCache =>
      obtain ⟨results, heq, hnext⟩ := hsound.getWithCache
      rw [State.step, heq]
      exact hnext
  | advance duration =>
      refine ⟨hsound.cap_pos, hsound.ring, hsound.idx_nonneg, hsound.last, fun hsome => ?_, hsound.cache⟩
      exact (hsound.updated hsome).trans (Int.le_add_of_nonneg_right (Int.natCast_nonneg _))

/-- The cache is as good as a new computation, and both are the statistics of the last values. -/
def Current (st : State) : Prop :=
  ∃ results, st.results.getWithCache st.now = .ok (results, st.results.get st.now) ∧
    st.results.get st.now = current st

def start (cap : Nat) (validity now d : Int) : State :=
  State.step { results := { cap, validity }, now } (.put d)

/-- **Cached statistics are current unless a value is put when the cache was made.** From the first value on, for
every capacity and validity, in a run in which no value is put at the time of the last refresh the cache is current
in the state that is reached. -/
theorem getWithCache_current {cap : Nat} (hcap : 0 < cap) (validity now d : Int) (events : List Event)
    (hapart : Along State.step Apart (start cap validity now d) events) :
    Current (Transition.run State.step (start cap validity now d) events) := by
  have hstart : Sound (start cap validity now d) := by
    refine sound_put (ring_allocated rfl hcap) hcap (fun hsome => ?_) d
    exact absurd hsome Bool.false_ne_true
  have hsound := run_induction_along (fun st event h hcondition => h.step event hcondition) events _
    hstart hapart
  obtain ⟨results, heq, -⟩ := hsound.getWithCache
  exact ⟨results, heq, hsound.get_eq⟩

theorem getWithCache_current_later :
    Current (Transition.run State.step (start 1 100 0 5) [.getWithCache, .advance 1, .put 7, .getWithCache]) := by
  refine getWithCache_current (by decide) 100 0 5 _ ⟨?_, ?_, ?_, ?_, trivial⟩
  · intro d hput
    cases hput
  · intro d hput
    cases hput
  · intro d _ _
    decide
  · intro d hput
    cases hput

/-- A value put at the time of the refresh is not seen. -/
theorem getWithCache_stale :
    ¬Current (Transition.run State.step (start 1 100 0 5) [.getWithCache, .put 7]) := by
  rintro ⟨results, heq, -⟩
  have hcached : (Transition.run State.step (start 1 100 0 5) [.getWithCache, .put 7]).results.getWithCache 0 =
      .ok (_, { all := 1, fail := 0, average := 5, max := 5, min := 5 }) := rfl
  have hstats : (Transition.run State.step (start 1 100 0 5) [.getWithCache, .put 7]).results.get 0 =
      { all := 1, fail := 0, average := 5, max := 5, min := 5 } :=
    congrArg Prod.snd (Except.ok.inj (heq.symm.trans hcached))
  exact absurd hstats (by decide)

end Cache

end V2RootCore.Observatory
