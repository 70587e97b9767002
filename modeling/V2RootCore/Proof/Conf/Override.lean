import Mathlib.Data.List.Nodup
import V2RootCore.Conf.Override
import V2RootCore.Pool

/-!
# What a merge keeps

Entries without a tag are looked up like the others, so one of them takes the place of another.
-/

namespace V2RootCore.Conf

open Go Pool

variable {σ : Type} {old new : List (Detour σ)} {config : Detour σ} {tail : Bool}

def Detour.untagged (config : Detour σ) : Bool := config.tag = []

/-- The old entries, with those whose tag is used again replaced in their places. -/
def kept (old new : List (Detour σ)) : List (Detour σ) :=
  old.map fun config =>
    if config.tag = [] then config else (new.find? fun other => other.tag = config.tag).getD config

/-- The entries that replace none. -/
def added (old new : List (Detour σ)) : List (Detour σ) :=
  new.filter fun config => config.tag = [] ∨ config.tag ∉ old.map Detour.tag

/-- All the entries of both files, the new ones together. -/
def merged (tail : Bool) (old new : List (Detour σ)) : List (Detour σ) :=
  if tail then kept old new ++ added old new else added old new ++ kept old new

/-- No two entries share a tag. -/
def Distinct (configs : List (Detour σ)) : Prop :=
  configs.Pairwise fun first second => first.tag ≠ [] → first.tag ≠ second.tag

/-- No entry without a tag meets another one. -/
def Clear (tail : Bool) (old new : List (Detour σ)) : Prop :=
  new.countP Detour.untagged = 0 ∨
    old.countP Detour.untagged = 0 ∧ (tail = true → new.countP Detour.untagged = 1)

/-! ### Entries that meet none -/

theorem map_tag_kept (old new : List (Detour σ)) : (kept old new).map Detour.tag = old.map Detour.tag := by
  rw [kept, List.map_map]
  refine List.map_congr_left fun config _ => ?_
  simp only [Function.comp]
  split
  · rfl
  · cases hfind : new.find? fun other => other.tag = config.tag with
    | none => rfl
    | some other => simpa using List.find?_some hfind

theorem findTag_eq (configs : List (Detour σ)) (tag : Bytes) :
    findTag configs tag = (configs.map Detour.tag).findIdx? (· = tag) := by
  rw [List.findIdx?_map]
  rfl

theorem findTag_eq_none_iff {configs : List (Detour σ)} {tag : Bytes} :
    findTag configs tag = none ↔ tag ∉ configs.map Detour.tag := by
  rw [findTag, List.findIdx?_eq_none_iff]
  simp

theorem kept_concat_of_ne (hne : config.tag = [] ∨ config.tag ∉ old.map Detour.tag) :
    kept old (new ++ [config]) = kept old new := by
  refine List.map_congr_left fun entry hentry => ?_
  have htag : entry.tag ∈ old.map Detour.tag := List.mem_map_of_mem hentry
  grind

theorem kept_concat_of_mem {idx : Nat} (hold : Distinct old) (htag : config.tag ≠ [])
    (hnew : config.tag ∉ new.map Detour.tag) (hidx : findTag old config.tag = some idx) :
    kept old (new ++ [config]) = (kept old new).set idx config := by
  obtain ⟨hlt, hfound, -⟩ := List.findIdx?_eq_some_iff_getElem.mp hidx
  have hnone : (new.find? fun other => other.tag = config.tag) = none := by grind
  have hdistinct := List.pairwise_iff_getElem.mp hold
  refine List.ext_getElem (by simp [kept]) fun k hk _ => ?_
  have hk : k < old.length := by simpa [kept] using hk
  by_cases heq : k = idx
  · subst heq
    grind [kept]
  · -- no other entry has this tag
    have hne : old[k].tag ≠ config.tag := by
      have hfirst := hdistinct k idx hk hlt
      have hsecond := hdistinct idx k hlt hk
      grind
    simp only [kept, List.getElem_set_ne (Ne.symm heq), List.getElem_map, List.find?_append]
    grind

theorem added_concat (old new : List (Detour σ)) (config : Detour σ) : added old (new ++ [config]) =
    if config.tag = [] ∨ config.tag ∉ old.map Detour.tag then added old new ++ [config] else added old new := by
  rw [added, List.filter_append, ← added, List.filter_singleton]
  split <;> simp_all

theorem not_mem_tags_added (old : List (Detour σ))
    (hlast : ∀ entry ∈ new, entry.tag ≠ [] → entry.tag ≠ config.tag)
    (hempty : config.tag = [] → new.countP Detour.untagged = 0) :
    config.tag ∉ (added old new).map Detour.tag := by
  intro hmem
  obtain ⟨entry, hentry, htag⟩ := List.mem_map.mp hmem
  have hentry := (List.mem_filter.mp hentry).1
  by_cases hne : entry.tag = []
  · exact List.countP_eq_zero.mp (hempty (htag.symm.trans hne)) entry hentry (decide_eq_true hne)
  · exact hlast entry hentry hne htag

/-- What has been gone through has replaced other entries or been added. -/
theorem foldl_overrideOutbound (hold : Distinct old) (hnew : Distinct new) (hclear : Clear tail old new) :
    new.foldl (overrideOutbound tail) (old, []) =
      if tail then (kept old new ++ added old new, []) else (kept old new, added old new) := by
  induction new using List.reverseRecOn with
  | nil =>
      have hkept : kept old [] = old := by simp [kept]
      split <;> simp [hkept, added]
  | append_singleton new config ih =>
      obtain ⟨hnew, -, hlast⟩ := List.pairwise_append.mp hnew
      have hlast (entry : Detour σ) (hentry : entry ∈ new) : entry.tag ≠ [] → entry.tag ≠ config.tag :=
        hlast entry hentry config (List.mem_singleton_self config)
      have hweight : weight Detour.untagged config = if config.tag = [] then 1 else 0 := by
        simp [weight, Detour.untagged]
      unfold Clear at hclear
      rw [countP_concat, hweight] at hclear
      have hbefore : Clear tail old new := by
        unfold Clear
        grind
      rw [List.foldl_append, ih hnew hbefore, List.foldl_cons, List.foldl_nil, added_concat]
      by_cases hreplaces : config.tag ≠ [] ∧ config.tag ∈ old.map Detour.tag
      · obtain ⟨htag, hmem⟩ := hreplaces
        obtain ⟨idx, hidx⟩ := Option.ne_none_iff_exists'.mp fun hnone => findTag_eq_none_iff.mp hnone hmem
        have hlt : idx < (kept old new).length := by
          have hlt := (List.findIdx?_eq_some_iff_getElem.mp hidx).1
          simpa [kept] using hlt
        have hfind (rest : List (Detour σ)) : findTag (kept old new ++ rest) config.tag = some idx := by
          rw [findTag_eq] at hidx ⊢
          rw [List.map_append, map_tag_kept, List.findIdx?_append, hidx, Option.some_or]
        have hkept := hfind []
        rw [List.append_nil] at hkept
        rw [kept_concat_of_mem hold htag (by grind) hidx]
        cases tail <;> simp [overrideOutbound, hfind, hkept, htag, hmem, List.set_append_left, hlt]
      · have hempty (htag : config.tag = []) :
            old.countP Detour.untagged = 0 ∧ (tail = true → new.countP Detour.untagged = 0) := by
          rw [if_pos htag] at hclear
          grind
        have hnot : config.tag ∉ old.map Detour.tag := by
          intro hmem
          have htag : config.tag = [] := by tauto
          obtain ⟨entry, hentry, heq⟩ := List.mem_map.mp hmem
          exact List.countP_eq_zero.mp (hempty htag).1 entry hentry (decide_eq_true (heq.trans htag))
        rw [kept_concat_of_ne (.inr hnot)]
        have hkept : config.tag ∉ (kept old new).map Detour.tag := by rwa [map_tag_kept]
        cases tail with
        | true =>
            have hadded := not_mem_tags_added old hlast fun htag => (hempty htag).2 rfl
            have hnone : findTag (kept old new ++ added old new) config.tag = none :=
              findTag_eq_none_iff.mpr (by rw [List.map_append, List.mem_append]; tauto)
            simp [overrideOutbound, hnone, hnot]
        | false => simp [overrideOutbound, findTag_eq_none_iff.mpr hkept, hnot]

/-! ### Entries that meet another -/

def untagged (configs : List (Detour σ)) : Nat := configs.countP Detour.untagged

theorem untagged_merge (old new : List (Detour σ)) :
    untagged (kept old new) + untagged (added old new) = untagged old + untagged new := by
  have hkept : untagged (kept old new) = untagged old := by
    have htags (configs : List (Detour σ)) : untagged configs = (configs.map Detour.tag).countP (· = []) := by
      rw [List.countP_map]
      rfl
    rw [htags, htags, map_tag_kept]
  have hadded : untagged (added old new) = untagged new := by
    rw [untagged, added, List.countP_filter]
    refine List.countP_congr fun config _ => ?_
    simp only [Detour.untagged, decide_eq_true_eq, Bool.and_eq_true]
    tauto
  rw [hkept, hadded]

section Step

variable {state : List (Detour σ) × List (Detour σ)}

theorem untagged_set {configs : List (Detour σ)} {idx : Nat} (hidx : findTag configs config.tag = some idx) :
    untagged (configs.set idx config) = untagged configs := by
  obtain ⟨hlt, hfound, -⟩ := List.findIdx?_eq_some_iff_getElem.mp hidx
  have hcount := countP_set Detour.untagged (List.getElem?_eq_getElem hlt) config
  have hsame : weight Detour.untagged configs[idx] = weight Detour.untagged config := by
    simp [weight, Detour.untagged, of_decide_eq_true hfound]
  unfold untagged
  omega

theorem untagged_eq_zero {configs : List (Detour σ)} (hnone : findTag configs config.tag = none)
    (htag : config.tag = []) : untagged configs = 0 := by
  refine List.countP_eq_zero.mpr fun entry hentry hempty => findTag_eq_none_iff.mp hnone ?_
  rw [htag, ← of_decide_eq_true hempty]
  exact List.mem_map_of_mem hentry

theorem untagged_concat (configs : List (Detour σ)) (config : Detour σ) :
    untagged (configs ++ [config]) = untagged configs + if config.tag = [] then 1 else 0 := by
  rw [untagged, countP_concat]
  simp [weight, Detour.untagged, untagged]

/-- Once there is an entry without a tag, the next one takes its place. -/
theorem untagged_overrideOutbound (config : Detour σ) (hpos : 0 < untagged state.1) :
    untagged (overrideOutbound tail state config).1 = untagged state.1 ∧
      untagged (overrideOutbound tail state config).2 = untagged state.2 := by
  unfold overrideOutbound
  split
  · exact ⟨untagged_set ‹_›, rfl⟩
  · have htag : config.tag ≠ [] := fun htag => by
      have hzero := untagged_eq_zero ‹_› htag
      omega
    split <;> simp [untagged_concat, htag]

theorem untagged_overrideOutbound_tail (config : Detour σ) (hle : untagged state.1 ≤ 1) :
    untagged (overrideOutbound true state config).1 ≤ 1 := by
  unfold overrideOutbound
  split
  · rwa [untagged_set ‹_›]
  · by_cases htag : config.tag = []
    · simp [untagged_concat, htag, untagged_eq_zero ‹_› htag]
    · simpa [untagged_concat, htag] using hle

theorem overrideOutbound_tail_snd (config : Detour σ) : (overrideOutbound true state config).2 = state.2 := by
  unfold overrideOutbound
  split <;> rfl

end Step

theorem foldl_overrideOutbound_of_pos (tail : Bool) (new prepends : List (Detour σ)) (hpos : 0 < untagged old) :
    untagged (new.foldl (overrideOutbound tail) (old, prepends)).1 = untagged old ∧
      untagged (new.foldl (overrideOutbound tail) (old, prepends)).2 = untagged prepends := by
  induction new using List.reverseRecOn with
  | nil => exact ⟨rfl, rfl⟩
  | append_singleton new config ih =>
      rw [List.foldl_append, List.foldl_cons, List.foldl_nil, ← ih.1, ← ih.2]
      exact untagged_overrideOutbound config (by omega)

theorem foldl_overrideOutbound_tail (new : List (Detour σ)) (hzero : untagged old = 0) :
    untagged (new.foldl (overrideOutbound true) (old, [])).1 ≤ 1 := by
  induction new using List.reverseRecOn with
  | nil => exact hzero.trans_le (Nat.zero_le 1)
  | append_singleton new config ih =>
      rw [List.foldl_append]
      exact untagged_overrideOutbound_tail config ih

theorem foldl_overrideOutbound_tail_snd (old new : List (Detour σ)) :
    (new.foldl (overrideOutbound true) (old, [])).2 = [] := by
  induction new using List.reverseRecOn with
  | nil => rfl
  | append_singleton new config ih =>
      rw [List.foldl_append]
      exact (overrideOutbound_tail_snd config).trans ih

theorem foldl_overrideInbound (old new : List (Detour σ)) :
    new.foldl overrideInbound old = (new.foldl (overrideOutbound true) (old, [])).1 := by
  change new.foldl overrideInbound (old, ([] : List (Detour σ))).1 = _
  refine List.foldl_hom Prod.fst fun state config => ?_
  simp only [overrideInbound, overrideOutbound]
  split <;> rfl

theorem overrideOutbound_eq_merged_iff (tail : Bool) (hold : Distinct old) (hnew : Distinct new) :
    (new.foldl (overrideOutbound tail) (old, [])).2 ++ (new.foldl (overrideOutbound tail) (old, [])).1 =
      merged tail old new ↔ Clear tail old new := by
  constructor
  · intro heq
    have hcount := congrArg untagged heq
    have hmerged : untagged (merged tail old new) = untagged old + untagged new := by
      have hmerge := untagged_merge old new
      unfold merged
      split <;> simp only [untagged, List.countP_append] at hmerge ⊢ <;> omega
    rw [hmerged, untagged, List.countP_append, ← untagged, ← untagged] at hcount
    rcases Nat.eq_zero_or_pos (untagged old) with hzero | hpos
    · cases tail with
      | false => exact .inr ⟨hzero, nofun⟩
      | true =>
          have hle := foldl_overrideOutbound_tail new hzero
          rw [foldl_overrideOutbound_tail_snd] at hcount
          have hnil : untagged ([] : List (Detour σ)) = 0 := rfl
          rcases Nat.eq_zero_or_pos (untagged new) with hnone | hsome
          · exact .inl hnone
          · exact .inr ⟨hzero, fun _ => show untagged new = 1 by omega⟩
    · obtain ⟨hlist, hfront⟩ := foldl_overrideOutbound_of_pos tail new [] hpos
      have hnil : untagged ([] : List (Detour σ)) = 0 := rfl
      exact .inl (show untagged new = 0 by omega)
  · intro hclear
    rw [foldl_overrideOutbound hold hnew hclear, merged]
    cases tail <;> rfl

/-- **A merge keeps every entry exactly if no entry without a tag meets another one.** -/
theorem override_eq_merged_iff (c o : Config σ) (fn : Bytes)
    (hinbounds : Distinct c.inboundConfigs ∧ Distinct o.inboundConfigs)
    (houtbounds : Distinct c.outboundConfigs ∧ Distinct o.outboundConfigs) :
    (c.override o fn).inboundConfigs = merged true c.inboundConfigs o.inboundConfigs ∧
        (c.override o fn).outboundConfigs = merged (isTail fn) c.outboundConfigs o.outboundConfigs ↔
      Clear true c.inboundConfigs o.inboundConfigs ∧
        Clear (isTail fn) c.outboundConfigs o.outboundConfigs := by
  have hinbound := overrideOutbound_eq_merged_iff true hinbounds.1 hinbounds.2
  rw [foldl_overrideOutbound_tail_snd, List.nil_append, ← foldl_overrideInbound] at hinbound
  exact and_congr hinbound (overrideOutbound_eq_merged_iff _ houtbounds.1 houtbounds.2)

theorem override_one_untagged :
    (Config.override { outboundConfigs := [⟨ascii "direct", 0⟩] } { outboundConfigs := [⟨[], 1⟩] }
        (ascii "b.json")).outboundConfigs = [⟨[], 1⟩, ⟨ascii "direct", 0⟩] :=
  ((override_eq_merged_iff { outboundConfigs := [⟨ascii "direct", 0⟩] } { outboundConfigs := [⟨[], 1⟩] }
    (ascii "b.json") (by simp [Distinct]) (by simp [Distinct])).mpr (by unfold Clear; decide)).2.trans (by decide)

/-- An inbound without a tag takes the place of the one there was. -/
theorem override_loses_untagged :
    Config.inboundConfigs (Config.override { inboundConfigs := [⟨[], 0⟩] } { inboundConfigs := [⟨[], 1⟩] }
        (ascii "b.json")) = [⟨[], 1⟩] ∧
      (⟨[], 0⟩ : Detour Nat) ∉ Config.inboundConfigs (Config.override { inboundConfigs := [⟨[], 0⟩] }
        { inboundConfigs := [⟨[], 1⟩] } (ascii "b.json")) := by
  decide

end V2RootCore.Conf
