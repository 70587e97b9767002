import V2RootCore.Stats.Traffic

/-!
# Which traffic is in the totals

The tests on a joined name find the owner and the direction of the counter whatever the tag is. The test for the
tag `api` finds every tag that has these letters in it.
-/

namespace V2RootCore.Stats

open Go Strmatcher

section Names

variable {part a b : Bytes}

theorem infix_append_cons_iff {c : UInt8} (hc : c ∉ part) (hne : part ≠ []) :
    part <:+: a ++ c :: b ↔ part <:+: a ∨ part <:+: b := by
  have hfront {rest front : Bytes} (hrest : front <+: c :: rest) (hpart : ∀ x ∈ front, x ∈ part) : front = [] := by
    cases front with
    | nil => rfl
    | cons x front =>
        obtain ⟨rfl, -⟩ := List.cons_prefix_cons.mp hrest
        exact absurd (hpart x List.mem_cons_self) hc
  rw [List.infix_append_iff, List.infix_cons_iff]
  constructor
  · rintro (hleft | (hcons | hright) | ⟨front, back, rfl, hfirst, hsecond⟩)
    · exact .inl hleft
    · exact absurd (hfront hcons fun _ => id) hne
    · exact .inr hright
    · rw [hfront hsecond fun x hx => List.mem_append_right _ hx, List.append_nil]
      exact .inl hfirst.isInfix
  · rintro (hleft | hright)
    · exact .inl hleft
    · exact .inr (.inl (.inr hright))

theorem infix_separated_iff (hc : 62 ∉ part) (hne : part ≠ []) :
    part <:+: a ++ ascii ">>>" ++ b ↔ part <:+: a ∨ part <:+: b := by
  have htext : a ++ ascii ">>>" ++ b = a ++ 62 :: ([] ++ 62 :: ([] ++ 62 :: b)) := List.append_assoc _ _ _
  rw [htext, infix_append_cons_iff hc hne, infix_append_cons_iff hc hne, infix_append_cons_iff hc hne,
    List.infix_nil, or_iff_right hne, or_iff_right hne]

theorem contains_api_name (key : Key) : contains key.name (ascii "api") = contains key.tag (ascii "api") := by
  have hname : key.name = key.owner.text ++ ascii ">>>" ++ key.tag ++ ascii ">>>" ++
      (ascii "traffic" ++ ascii ">>>" ++ key.direction.text) := by
    have hmiddle : ascii ">>>traffic>>>" = ascii ">>>" ++ (ascii "traffic" ++ ascii ">>>") := rfl
    rw [Key.name, hmiddle, ← List.append_assoc, List.append_assoc _ _ key.direction.text]
  have howner : ¬ascii "api" <:+: key.owner.text := by cases key.owner <;> decide
  have hdirection : ¬ascii "api" <:+: key.direction.text := by cases key.direction <;> decide
  have htraffic : ¬ascii "api" <:+: ascii "traffic" := by decide
  have hc : 62 ∉ ascii "api" := by decide
  have hne : ascii "api" ≠ [] := by decide
  apply decide_eq_decide.mpr
  rw [hname, infix_separated_iff hc hne, infix_separated_iff hc hne, infix_separated_iff hc hne,
    or_iff_right howner, or_iff_right htraffic, or_iff_left hdirection]

theorem hasPrefix_name (key : Key) : hasPrefix key.name (ascii "outbound") = decide (key.owner = .outbound) := by
  obtain ⟨owner, tag, direction⟩ := key
  cases owner <;> rfl

theorem hasSuffix_name (key : Key) (direction : Direction) :
    hasSuffix key.name direction.text = decide (key.direction = direction) := by
  have hend : key.direction.text <:+ key.name := List.suffix_append _ _
  by_cases hsame : key.direction = direction
  · rw [decide_eq_true hsame, ← hsame]
    exact List.isSuffixOf_iff_suffix.mpr hend
  · rw [decide_eq_false hsame]
    apply Bool.eq_false_iff.mpr
    intro hsuffix
    -- Of two ends of one text the shorter is an end of the longer.
    have hboth := List.suffix_or_suffix_of_suffix hend (List.isSuffixOf_iff_suffix.mp hsuffix)
    revert hsame hboth
    generalize key.direction = actual
    cases actual <;> cases direction <;> decide

end Names

/-- The counters of the manager. -/
structure Counters where
  keys : List Key
  nodup : keys.Nodup

namespace Counters

def stats (counters : Counters) (value : Key → Int64) : List Stat :=
  counters.keys.map fun key => ⟨key.name, value key⟩

/-- The sum over the outbound counters of one direction, without those of the injected tag. -/
def total (counters : Counters) (value : Key → Int64) (direction : Direction) : Int64 :=
  ((counters.keys.filter fun key => key.owner = .outbound ∧ key.tag ≠ ascii "api" ∧
    key.direction = direction).map value).sum

/-- Whether the code counts a key for a direction. -/
def Counted (direction : Direction) (key : Key) : Bool :=
  key.owner = .outbound ∧ contains key.tag (ascii "api") = false ∧ key.direction = direction

theorem add_stat (totals : Totals) (key : Key) (value : Int64) :
    totals.add ⟨key.name, value⟩ = ⟨totals.uplink + if Counted .uplink key then value else 0,
      totals.downlink + if Counted .downlink key then value else 0⟩ := by
  have hup : hasSuffix key.name (ascii "uplink") = _ := hasSuffix_name key .uplink
  have hdown : hasSuffix key.name (ascii "downlink") = _ := hasSuffix_name key .downlink
  unfold Totals.add Counted
  dsimp only
  rw [hasPrefix_name, contains_api_name, hup, hdown]
  cases contains key.tag (ascii "api") <;> cases key.direction <;> by_cases howner : key.owner = .outbound <;>
    simp [howner]

theorem foldl_add (keys : List Key) (value : Key → Int64) (totals : Totals) :
    (keys.map fun key => (⟨key.name, value key⟩ : Stat)).foldl Totals.add totals =
      ⟨totals.uplink + ((keys.filter (Counted .uplink)).map value).sum,
        totals.downlink + ((keys.filter (Counted .downlink)).map value).sum⟩ := by
  have hcons (direction : Direction) (key : Key) (keys : List Key) :
      (((key :: keys).filter (Counted direction)).map value).sum =
        (if Counted direction key then value key else 0) + ((keys.filter (Counted direction)).map value).sum := by
    rw [List.filter_cons]
    split_ifs
    · rw [List.map_cons, List.sum_cons]
    · rw [Int64.zero_add]
  induction keys generalizing totals with
  | nil => simp
  | cons key keys ih =>
      rw [List.map_cons, List.foldl_cons, ih, add_stat, hcons, hcons, Int64.add_assoc, Int64.add_assoc]

theorem queryStatsFromAPI_stats (counters : Counters) (value : Key → Int64) :
    queryStatsFromAPI (counters.stats value) = ⟨((counters.keys.filter (Counted .uplink)).map value).sum,
      ((counters.keys.filter (Counted .downlink)).map value).sum⟩ := by
  have hall : queryStats [] (counters.stats value) = counters.stats value :=
    List.filter_eq_self.mpr fun stat _ => decide_eq_true List.nil_infix
  rw [queryStatsFromAPI, hall, stats, foldl_add, Int64.zero_add, Int64.zero_add]

/-- The sum of a function that is one at a single key. -/
theorem sum_single {keys : List Key} (h : keys.Nodup) (key : Key) :
    (keys.map fun k => if k = key then (1 : Int64) else 0).sum = if key ∈ keys then 1 else 0 := by
  induction keys with
  | nil => rfl
  | cons first keys ih =>
      obtain ⟨hnot, hkeys⟩ := List.nodup_cons.mp h
      rw [List.map_cons, List.sum_cons, ih hkeys]
      by_cases hfirst : first = key
      · subst hfirst
        simp [hnot]
      · simp [hfirst, Ne.symm hfirst]

/-- **The totals are the sums over the user's outbounds exactly if no other tag has the letters `api` in it.** -/
theorem queryStatsFromAPI_eq_iff (counters : Counters) :
    (∀ value, queryStatsFromAPI (counters.stats value) =
      ⟨counters.total value .uplink, counters.total value .downlink⟩) ↔
      ∀ key ∈ counters.keys, key.owner = .outbound → contains key.tag (ascii "api") = true →
        key.tag = ascii "api" := by
  constructor
  · intro h key hkey howner hcontains
    by_contra htag
    have hvalues := h fun k => if k = key then 1 else 0
    rw [queryStatsFromAPI_stats] at hvalues
    obtain ⟨hup, hdown⟩ := Totals.mk.inj hvalues
    have hdirection (direction : Direction) (hsum : ((counters.keys.filter (Counted direction)).map fun k =>
        if k = key then (1 : Int64) else 0).sum = counters.total (fun k => if k = key then 1 else 0) direction)
        (hkeydirection : key.direction = direction) : False := by
      unfold total at hsum
      rw [sum_single (counters.nodup.filter _), sum_single (counters.nodup.filter _), if_neg, if_pos] at hsum
      · exact absurd hsum (by decide)
      · simp [hkey, howner, htag, hkeydirection]
      · simp [Counted, hcontains]
    cases hkeydirection : key.direction with
    | uplink => exact hdirection .uplink hup hkeydirection
    | downlink => exact hdirection .downlink hdown hkeydirection
  · intro h value
    have hsame (direction : Direction) : counters.keys.filter (Counted direction) = counters.keys.filter fun key =>
        key.owner = .outbound ∧ key.tag ≠ ascii "api" ∧ key.direction = direction := by
      apply List.filter_congr
      intro key hkey
      apply decide_eq_decide.mpr
      refine and_congr_right fun howner => and_congr_left fun _ => ?_
      constructor
      · rintro hnot htag
        rw [htag] at hnot
        exact absurd hnot (by decide)
      · intro htag
        exact Bool.eq_false_iff.mpr fun hcontains => htag (h key hkey howner hcontains)
    rw [queryStatsFromAPI_stats, hsame, hsame]
    rfl

/-- The traffic of an outbound with the tag `rapid` is not counted. -/
theorem queryStatsFromAPI_rapid : ∃ counters : Counters,
    counters.keys = [⟨.outbound, ascii "rapid", .uplink⟩] ∧
      queryStatsFromAPI (counters.stats fun _ => 1000) = ⟨0, 0⟩ ∧
      counters.total (fun _ => 1000) .uplink = 1000 := by
  refine ⟨⟨[⟨.outbound, ascii "rapid", .uplink⟩], List.nodup_singleton _⟩, rfl, ?_, ?_⟩
  · rw [queryStatsFromAPI_stats]
    decide
  · decide

end Counters

end V2RootCore.Stats
