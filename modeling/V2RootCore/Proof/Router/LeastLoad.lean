import V2RootCore.Router.LeastLoad

/-!
# The nodes that least load selects

In a list sorted by a key the elements below a bound are the first ones, as many as there are, so a scan that
starts at an earlier count ends at the larger of the two. The first baseline with enough nodes below it has more of
them than each one before, and the count there is its own.
-/

namespace V2RootCore.Router

open Go

section Sorted

variable {α β : Type} [LinearOrder β] {key : α → β} {l : List α} {bound : β}

/-- The elements below the bound come first. -/
theorem exists_split (bound : β) (hsorted : l.Pairwise fun a b => key a ≤ key b) :
    ∃ low high, l = low ++ high ∧ (∀ a ∈ low, key a < bound) ∧ ∀ a ∈ high, bound ≤ key a := by
  induction l with
  | nil => exact ⟨[], [], rfl, by simp, by simp⟩
  | cons a l ih =>
      obtain ⟨hfirst, hrest⟩ := List.pairwise_cons.mp hsorted
      by_cases hlt : key a < bound
      · obtain ⟨low, high, rfl, hlow, hhigh⟩ := ih hrest
        exact ⟨a :: low, high, rfl, List.forall_mem_cons.mpr ⟨hlt, hlow⟩, hhigh⟩
      · have hbound := not_lt.mp hlt
        refine ⟨[], a :: l, rfl, by simp, List.forall_mem_cons.mpr ⟨hbound, fun b hb => ?_⟩⟩
        exact hbound.trans (hfirst b hb)

theorem countP_split {low high : List α} (hlow : ∀ a ∈ low, key a < bound) (hhigh : ∀ a ∈ high, bound ≤ key a) :
    (low ++ high).countP (key · < bound) = low.length := by
  have hall : low.countP (key · < bound) = low.length := List.countP_eq_length.mpr (by simpa using hlow)
  have hnone : high.countP (key · < bound) = 0 := List.countP_eq_zero.mpr (by simpa using hhigh)
  rw [List.countP_append, hall, hnone, Nat.add_zero]

theorem mem_take_countP_iff (hsorted : l.Pairwise fun a b => key a ≤ key b) {a : α} :
    a ∈ l.take (l.countP (key · < bound)) ↔ a ∈ l ∧ key a < bound := by
  obtain ⟨low, high, rfl, hlow, hhigh⟩ := exists_split bound hsorted
  rw [countP_split hlow hhigh, List.take_left, List.mem_append]
  constructor
  · exact fun ha => ⟨.inl ha, hlow a ha⟩
  · rintro ⟨ha | ha, hlt⟩
    · exact ha
    · exact absurd hlt (hhigh a ha).not_gt

theorem lt_countP_iff (hsorted : l.Pairwise fun a b => key a ≤ key b) {i : Nat} (hi : i < l.length) :
    i < l.countP (key · < bound) ↔ key l[i] < bound := by
  obtain ⟨low, high, rfl, hlow, hhigh⟩ := exists_split bound hsorted
  rw [countP_split hlow hhigh, List.getElem_append]
  split_ifs with hlt
  · exact iff_of_true hlt (hlow _ (List.getElem_mem hlt))
  · exact iff_of_false hlt (hhigh _ (List.getElem_mem _)).not_gt

end Sorted

section Order

/-- What `less` compares, as one value. -/
def Node.key (node : Node) : Int ×ₗ Int ×ₗ Int ×ₗ Int ×ₗ List Nat :=
  toLex (node.rttDeviationCost, toLex (node.rttAverage, toLex (node.countFail, toLex (-node.countAll,
    node.tag.map UInt8.toNat))))

theorem less_iff (left right : Node) : less left right = true ↔ left.key < right.key := by
  unfold less Node.key
  rw [Prod.Lex.toLex_lt_toLex, Prod.Lex.toLex_lt_toLex, Prod.Lex.toLex_lt_toLex, Prod.Lex.toLex_lt_toLex]
  split_ifs with hcost haverage hfail hall <;> simp only [decide_eq_true_eq] <;> grind

theorem pairwise_leastloadSort (nodes : List Node) :
    (leastloadSort nodes).Pairwise fun a b => a.rttDeviationCost ≤ b.rttDeviationCost := by
  have hle : ∀ a b : Node, (!less b a) = true ↔ a.key ≤ b.key := by
    intro a b
    rw [Bool.not_eq_eq_eq_not, Bool.not_true, ← Bool.not_eq_true, less_iff, not_lt]
  refine (List.pairwise_mergeSort (fun a b c => ?_) (fun a b => ?_) nodes).imp fun {a b} h => ?_
  · rw [hle, hle, hle]
    exact le_trans
  · rw [Bool.or_eq_true, hle, hle]
    exact le_total _ _
  · have hkey := (hle a b).mp h
    unfold Node.key at hkey
    rw [Prod.Lex.toLex_le_toLex] at hkey
    obtain hlt | ⟨heq, -⟩ := hkey
    · exact hlt.le
    · exact heq.le

end Order

section Number

variable {α : Type}

/-- The number of elements below a baseline. -/
def numberBelow (cost : α → Int) (l : List α) (baseline : Int) : Nat := l.countP (cost · < baseline)

/-- The first baseline that has as many elements below it as are expected, or any if none are. -/
def firstBaseline (settings : StrategyLeastLoadConfig) (cost : α → Int) (l : List α) : Option Int :=
  settings.baselines.find? fun b => max settings.expected 1 ≤ (numberBelow cost l b : Int)

/-- How many elements are selected. -/
structure Count (settings : StrategyLeastLoadConfig) (cost : α → Int) (l : List α) (n : Nat) : Prop where
  plain : settings.baselines = [] → (n : Int) = min (max settings.expected 1) l.length
  below : ∀ baseline, firstBaseline settings cost l = some baseline → n = numberBelow cost l baseline
  fallback : settings.baselines ≠ [] → firstBaseline settings cost l = none →
    (n : Int) = if 0 < settings.expected then min settings.expected l.length else 0

theorem Count.of_map {β : Type} {settings : StrategyLeastLoadConfig} {cost : β → Int} {f : α → β} {l : List α}
    {n : Nat} (h : Count settings cost (l.map f) n) : Count settings (cost ∘ f) l n := by
  have hnumber : numberBelow cost (l.map f) = numberBelow (cost ∘ f) l := funext fun _ => List.countP_map
  obtain ⟨hplain, hbelow, hfallback⟩ := h
  rw [firstBaseline, hnumber] at hbelow hfallback
  rw [List.length_map] at hplain hfallback
  exact ⟨hplain, hbelow, hfallback⟩

end Number

section Selection

variable {nodes : List Node}

theorem nodesTo_ok {n : Nat} (h : n ≤ nodes.length) : nodesTo nodes n = .ok (nodes.take n) := by
  rw [nodesTo, if_pos ⟨by omega, by omega⟩, Int.toNat_natCast]

variable (hsorted : nodes.Pairwise fun a b => a.rttDeviationCost ≤ b.rttDeviationCost)

include hsorted

theorem countBelow_eq (baseline : Int) (count : Nat) (hcount : count ≤ nodes.length) :
    countBelow nodes baseline count = max count (numberBelow Node.rttDeviationCost nodes baseline) := by
  fun_induction countBelow nodes baseline count with
  | case1 count hlt hge =>
      have hnot : ¬count < numberBelow Node.rttDeviationCost nodes baseline :=
        (lt_countP_iff hsorted hlt).not.mpr hge.not_gt
      exact (max_eq_left (not_lt.mp hnot)).symm
  | case2 count hlt hbelow ih =>
      have hnext : count < numberBelow Node.rttDeviationCost nodes baseline :=
        (lt_countP_iff hsorted hlt).mpr (not_le.mp hbelow)
      rw [ih hlt]
      omega
  | case3 count hend =>
      have hle : numberBelow Node.rttDeviationCost nodes baseline ≤ nodes.length := List.countP_le_length
      omega

/-- The carried count ends at the number of the first baseline that has enough nodes. -/
theorem applyBaselines_spec (expected : Int) (baselines : List Int) (count : Nat)
    (hcount : count ≤ nodes.length) (hfew : count < expected) :
    (∀ baseline, baselines.find? (fun b => expected ≤ numberBelow Node.rttDeviationCost nodes b) = some baseline →
        applyBaselines nodes expected baselines count = numberBelow Node.rttDeviationCost nodes baseline) ∧
      (baselines.find? (fun b => expected ≤ numberBelow Node.rttDeviationCost nodes b) = none →
        applyBaselines nodes expected baselines count < expected) := by
  induction baselines generalizing count with
  | nil => exact ⟨fun _ h => absurd h (by simp), fun _ => hfew⟩
  | cons b baselines ih =>
      have hle : numberBelow Node.rttDeviationCost nodes b ≤ nodes.length := List.countP_le_length
      rw [applyBaselines, countBelow_eq hsorted b count hcount]
      by_cases henough : expected ≤ numberBelow Node.rttDeviationCost nodes b
      · rw [List.find?_cons_of_pos (by simpa using henough), if_pos (by omega)]
        refine ⟨fun baseline hb => ?_, fun h => absurd h (by simp)⟩
        obtain rfl := Option.some.inj hb
        omega
      · rw [List.find?_cons_of_neg (by simpa using henough), if_neg (by omega)]
        exact ih _ (by omega) (by omega)

theorem selectExpected_spec {settings : StrategyLeastLoadConfig} {expected : Int}
    (hmax : expected = max settings.expected 1) (hlength : expected ≤ nodes.length) :
    ∃ n ≤ nodes.length, selectExpected settings nodes expected = .ok (nodes.take n) ∧
      Count settings Node.rttDeviationCost nodes n := by
  have hbelow : ∀ b, numberBelow Node.rttDeviationCost nodes b ≤ nodes.length := fun b => List.countP_le_length
  obtain ⟨hfirst, hnone⟩ :=
    applyBaselines_spec hsorted expected settings.baselines 0 (Nat.zero_le _) (by push_cast; omega)
  have hfind : settings.baselines.find? (fun b => expected ≤ numberBelow Node.rttDeviationCost nodes b) =
      firstBaseline settings Node.rttDeviationCost nodes := by rw [firstBaseline, hmax]
  unfold selectExpected
  generalize applyBaselines nodes expected settings.baselines 0 = count at hfirst hnone ⊢
  rw [hfind] at hfirst hnone
  dsimp only
  split_ifs with hbaselines henough
  · have hnil := List.length_eq_zero_iff.mp hbaselines
    obtain ⟨n, rfl⟩ := Int.eq_ofNat_of_zero_le (show 0 ≤ expected by omega)
    refine ⟨n, by omega, nodesTo_ok (by omega), fun _ => by omega, fun b hb => ?_, fun hne => absurd hnil hne⟩
    rw [firstBaseline, hnil] at hb
    cases hb
  · obtain ⟨hpos, hcount⟩ := henough
    obtain rfl : expected = settings.expected := by omega
    refine ⟨settings.expected.toNat, by omega, ?_, fun hnil => absurd (congrArg List.length hnil) hbaselines,
      fun b hb => ?_, fun _ _ => ?_⟩
    · rw [← nodesTo_ok (by omega), Int.toNat_of_nonneg hpos.le]
    · have hle := List.find?_some hb
      rw [decide_eq_true_eq, ← hfirst b hb] at hle
      omega
    · rw [if_pos hpos]
      omega
  · have hcount : count ≤ nodes.length := by
      cases hb : firstBaseline settings Node.rttDeviationCost nodes with
      | none =>
          have hlt := hnone hb
          omega
      | some b => exact (hfirst b hb).trans_le (hbelow b)
    refine ⟨count, hcount, nodesTo_ok hcount, fun hnil => absurd (congrArg List.length hnil) hbaselines, hfirst,
      fun _ hnone' => ?_⟩
    have hlt := hnone hnone'
    rw [if_neg fun hpos => henough ⟨hpos, by omega⟩]
    omega

theorem selectLeastLoad_spec (settings : StrategyLeastLoadConfig) :
    ∃ n ≤ nodes.length, selectLeastLoad settings nodes = .ok (nodes.take n) ∧
      Count settings Node.rttDeviationCost nodes n := by
  unfold selectLeastLoad
  by_cases hempty : nodes.length = 0
  · rw [if_pos hempty]
    obtain rfl := List.length_eq_zero_iff.mp hempty
    refine ⟨0, le_rfl, rfl, fun _ => ?_, fun _ _ => rfl, fun _ _ => ?_⟩
    · rw [List.length_nil]
      omega
    · split_ifs
      · rw [List.length_nil]
        omega
      · rfl
  rw [if_neg hempty]
  by_cases hfew : settings.expected > nodes.length
  · rw [if_pos hfew]
    refine ⟨nodes.length, le_rfl, by rw [List.take_length], fun _ => by omega, fun b hb => ?_, fun _ _ => ?_⟩
    · have henough := List.find?_some hb
      have hbelow : numberBelow Node.rttDeviationCost nodes b ≤ nodes.length := List.countP_le_length
      rw [decide_eq_true_eq] at henough
      omega
    · rw [if_pos (by omega)]
      omega
  rw [if_neg hfew]
  exact selectExpected_spec hsorted (by split_ifs <;> omega) (by split_ifs <;> omega)

end Selection

/-! ### What is promised -/

/-- The candidates that are alive and below the limit for the round trip, in the order observed. -/
def qualified (observation : Option (List OutboundStatus)) (settings : StrategyLeastLoadConfig)
    (candidates : List Bytes) : List OutboundStatus :=
  (observation.getD []).filter fun v => v.alive = true ∧ candidates.contains v.outboundTag ∧
    (settings.maxRTT = 0 ∨ v.delay * 1000000 < settings.maxRTT)

/-- The cost of an outbound: of the deviation of its pings, or of its delay if there are none. -/
def cost (apply : Bytes → Int → Int) (v : OutboundStatus) : Int :=
  apply v.outboundTag ((v.healthPing.map HealthPing.deviation).getD (int64 (v.delay * 1000000)))

/-- What least load promises for the qualified elements. -/
structure LeastLoad {α : Type} (settings : StrategyLeastLoadConfig) (cost : α → Int) (qualified chosen : List α) :
    Prop where
  subset : ∀ a ∈ chosen, a ∈ qualified
  least : ∀ a ∈ qualified, a ∉ chosen → ∀ other ∈ chosen, cost other ≤ cost a
  count : Count settings cost qualified chosen.length
  below : ∀ baseline, firstBaseline settings cost qualified = some baseline →
    ∀ a, a ∈ chosen ↔ a ∈ qualified ∧ cost a < baseline

/-- The picked nodes are those of different outbounds that were chosen as promised. -/
def Promised (apply : Bytes → Int → Int) (observation : Option (List OutboundStatus))
    (settings : StrategyLeastLoadConfig) (candidates : List Bytes) : Prop :=
  ∃ picked chosen, pickOutbounds apply observation settings candidates = .ok picked ∧
    picked.map Node.tag = chosen.map OutboundStatus.outboundTag ∧
    (chosen.map OutboundStatus.outboundTag).Nodup ∧
    LeastLoad settings (cost apply) (qualified observation settings candidates) chosen

section Promised

theorem leastLoad_of_count {α : Type} {settings : StrategyLeastLoadConfig} {cost : α → Int}
    {sorted qualified : List α} {n : Nat} (hperm : sorted.Perm qualified)
    (hsorted : sorted.Pairwise fun a b => cost a ≤ cost b) (hn : n ≤ sorted.length)
    (hcount : Count settings cost sorted n) : LeastLoad settings cost qualified (sorted.take n) := by
  have hlength : (sorted.take n).length = n := List.length_take_of_le hn
  have hnumber : numberBelow cost qualified = numberBelow cost sorted := funext fun b => (hperm.countP_eq _).symm
  have hbaseline : firstBaseline settings cost qualified = firstBaseline settings cost sorted := by
    rw [firstBaseline, hnumber, firstBaseline]
  refine ⟨fun a ha => hperm.subset (List.mem_of_mem_take ha), fun a ha hout other hother => ?_, ?_,
    fun baseline hfind a => ?_⟩
  · rw [← hperm.mem_iff, ← List.take_append_drop n sorted, List.mem_append] at ha
    rw [← List.take_append_drop n sorted, List.pairwise_append] at hsorted
    exact hsorted.2.2 other hother a (ha.resolve_left hout)
  · obtain ⟨hplain, hbelow, hfallback⟩ := hcount
    rw [hperm.length_eq] at hplain hfallback
    rw [hlength]
    exact ⟨hplain, by rwa [hbaseline, hnumber], by rwa [hbaseline]⟩
  · rw [hbaseline] at hfind
    rw [← hperm.mem_iff, hcount.below baseline hfind]
    exact mem_take_countP_iff hsorted

theorem nodeOf_eq (apply : Bytes → Int → Int) (v : OutboundStatus) :
    (nodeOf apply v).tag = v.outboundTag ∧ (nodeOf apply v).rttDeviationCost = cost apply v := by
  unfold nodeOf cost
  cases v.healthPing <;> exact ⟨rfl, rfl⟩

/-- The nodes are those of the outbounds that pass the filter, sorted by their costs. -/
theorem getNodes_eq (apply : Bytes → Int → Int) (observation : Option (List OutboundStatus))
    (settings : StrategyLeastLoadConfig) (candidates : List Bytes) :
    ∃ sorted : List OutboundStatus, getNodes apply observation candidates settings.maxRTT =
        sorted.map (nodeOf apply) ∧
      sorted.Perm ((observation.getD []).filter (qualifies candidates settings.maxRTT)) ∧
      sorted.Pairwise fun a b => cost apply a ≤ cost apply b := by
  cases observation with
  | none => exact ⟨[], rfl, List.Perm.nil, List.Pairwise.nil⟩
  | some results =>
      have hsort : leastloadSort ((results.filter (qualifies candidates settings.maxRTT)).map (nodeOf apply)) =
          ((results.filter (qualifies candidates settings.maxRTT)).mergeSort
            fun a b => !less (nodeOf apply b) (nodeOf apply a)).map (nodeOf apply) :=
        (List.map_mergeSort (f := nodeOf apply) (r := fun a b => !less (nodeOf apply b) (nodeOf apply a))
          (s := fun left right => !less right left) fun _ _ _ _ => rfl).symm
      have hpairwise := pairwise_leastloadSort
        ((results.filter (qualifies candidates settings.maxRTT)).map (nodeOf apply))
      refine ⟨_, hsort, List.mergeSort_perm _ _, ?_⟩
      rw [hsort, List.pairwise_map] at hpairwise
      refine hpairwise.imp fun {a b} hle => ?_
      rwa [(nodeOf_eq apply a).2, (nodeOf_eq apply b).2] at hle

/-- The limit in whole milliseconds lets as many through as the limit, unless a delay is just what is left
of the limit after the cut. -/
theorem lt_tdiv_iff {delay maxRTT : Int} (hcut : maxRTT % 1000000 = 0 ∨ delay ≠ maxRTT / 1000000) :
    delay < maxRTT.tdiv millisecond ↔ delay * 1000000 < maxRTT := by
  have hone : Int.sign 1000000 = 1 := rfl
  rw [millisecond, Int.tdiv_eq_ediv, hone]
  split_ifs with hsign <;> omega

theorem filter_qualifies {observation : Option (List OutboundStatus)} {settings : StrategyLeastLoadConfig}
    {candidates : List Bytes} (hcut : settings.maxRTT % 1000000 = 0 ∨ ∀ v ∈ observation.getD [],
      v.alive = true → v.outboundTag ∈ candidates → v.delay ≠ settings.maxRTT / 1000000) :
    (observation.getD []).filter (qualifies candidates settings.maxRTT) =
      qualified observation settings candidates := by
  refine List.filter_congr fun v hv => Bool.eq_iff_iff.mpr ?_
  simp only [qualifies, Bool.and_eq_true, Bool.or_eq_true, decide_eq_true_eq, List.contains_iff_mem]
  constructor
  · rintro ⟨⟨halive, hrtt⟩, hcandidate⟩
    have hlimit := lt_tdiv_iff (hcut.imp_right fun h => h v hv halive hcandidate)
    exact ⟨halive, hcandidate, hrtt.symm.imp_right hlimit.mp⟩
  · rintro ⟨halive, hcandidate, hrtt⟩
    have hlimit := lt_tdiv_iff (hcut.imp_right fun h => h v hv halive hcandidate)
    exact ⟨⟨halive, (hrtt.imp_right hlimit.mpr).symm⟩, hcandidate⟩

/-- Three outbounds that are alive, and one that is not. -/
def fourOutbounds : List OutboundStatus :=
  [{ alive := true, delay := 20, outboundTag := ascii "slow" },
    { alive := true, delay := 12, outboundTag := ascii "fast" },
    { alive := false, delay := 1, outboundTag := ascii "dead" },
    { alive := true, delay := 40, outboundTag := ascii "even",
      healthPing := some { all := 9, fail := 0, deviation := 3000000, average := 40000000 } }]

end Promised

end V2RootCore.Router
