import V2RootCore.Proof.Go.Map
import V2RootCore.Proxyman.Select

/-!
# When cached candidates are right

Different selectors may be joined to the same text, and then they share their candidates.
-/

namespace V2RootCore.Proxyman

open Go Transition

/-- The tags that are registered and begin with a selector, in their order. -/
def Manager.candidates (m : Manager) (selectors : List Bytes) : List Bytes :=
  sortStrings (m.tags.filter (selects selectors))

inductive SelectCall where
  | addHandler (handler : Handler) (fails : Option Error)
  | removeHandler (tag : Bytes)
  | select (selectors order : List Bytes)

/-- The manager, and the selectors of all calls of `Select` since a handler was added or removed. -/
structure Asking where
  selector : Selector := {}
  asked : List (List Bytes) := []

namespace Asking

/-- A map is walked in some order of its keys. -/
def step (st : Asking) : SelectCall → Asking
  | .addHandler handler fails => { selector := st.selector.addHandler handler fails }
  | .removeHandler tag =>
      if tag = [] then st else { selector := st.selector.removeHandler tag }
  | .select selectors order =>
      if order.Perm st.selector.manager.tags then
        { selector := (st.selector.select selectors order).2, asked := selectors :: st.asked }
      else st

/-- `Select` returns the candidates of its selectors. -/
def Fresh (st : Asking) : SelectCall → Prop
  | .select selectors order => order.Perm st.selector.manager.tags →
      (st.selector.select selectors order).1 = st.selector.manager.candidates selectors
  | _ => True

/-- Selectors that are joined to the same text have the same candidates. -/
def Unmixed (st : Asking) : SelectCall → Prop
  | .select selectors order => order.Perm st.selector.manager.tags →
      ∀ earlier ∈ st.asked, joined earlier = joined selectors →
        st.selector.manager.candidates earlier = st.selector.manager.candidates selectors
  | _ => True

theorem sortStrings_eq_of_perm {first second : List Bytes} (h : first.Perm second) :
    sortStrings first = sortStrings second := by
  have hsorted (tags : List Bytes) : (sortStrings tags).Pairwise fun a b => decide (a ≤ b) = true := by
    refine List.pairwise_mergeSort (fun a b c hab hbc => ?_) (fun a b => ?_) tags
    · exact decide_eq_true (List.le_trans (of_decide_eq_true hab) (of_decide_eq_true hbc))
    · simpa using List.le_total a b
  refine List.Perm.eq_of_pairwise (fun a b _ _ hab hba => ?_) (hsorted first) (hsorted second) ?_
  · exact List.le_antisymm (of_decide_eq_true hab) (of_decide_eq_true hba)
  · exact (List.mergeSort_perm first _).trans (h.trans (List.mergeSort_perm second _).symm)

/-- The cache has the candidates of the selectors that were asked for. -/
structure Sound (st : Asking) : Prop where
  asked : ∀ selectors ∈ st.asked,
    st.selector.tagsCache.lookup (joined selectors) = some (st.selector.manager.candidates selectors)
  cached : ∀ key tags, st.selector.tagsCache.lookup key = some tags → ∃ selectors ∈ st.asked, joined selectors = key

variable {st : Asking}

/-- What `Select` does with the cache. -/
theorem select_cases (st : Asking) (selectors : List Bytes) {order : List Bytes}
    (horder : order.Perm st.selector.manager.tags) :
    (∃ cache, st.selector.tagsCache.lookup (joined selectors) = some cache ∧
      st.selector.select selectors order = (cache, st.selector)) ∨
    (st.selector.tagsCache.lookup (joined selectors) = none ∧
      st.selector.select selectors order = (st.selector.manager.candidates selectors,
        { st.selector with
          tagsCache := st.selector.tagsCache.set (joined selectors)
            (st.selector.manager.candidates selectors) })) := by
  have hsorted : sortStrings (order.filter (selects selectors)) = st.selector.manager.candidates selectors :=
    sortStrings_eq_of_perm (horder.filter _)
  unfold Selector.select
  split
  · next cache hcache => exact .inl ⟨cache, hcache, rfl⟩
  · next hnone => exact .inr ⟨hnone, by rw [hsorted]⟩

theorem Sound.fresh_iff (h : Sound st) (call : SelectCall) : st.Fresh call ↔ st.Unmixed call := by
  cases call with
  | select selectors order =>
      refine imp_congr_right fun horder => ?_
      obtain ⟨cache, hcache, hselect⟩ | ⟨hnone, hselect⟩ := select_cases st selectors horder
      · rw [hselect]
        have hearlier (earlier : List Bytes) (hasked : earlier ∈ st.asked)
            (hsame : joined earlier = joined selectors) : cache = st.selector.manager.candidates earlier := by
          have hlookup := h.asked earlier hasked
          rw [hsame, hcache] at hlookup
          exact Option.some.inj hlookup
        constructor
        · intro hfresh earlier hasked hsame
          exact (hearlier earlier hasked hsame).symm.trans hfresh
        · intro hunmixed
          obtain ⟨earlier, hasked, hsame⟩ := h.cached _ _ hcache
          exact (hearlier earlier hasked hsame).trans (hunmixed earlier hasked hsame)
      · rw [hselect]
        refine iff_of_true rfl fun earlier hasked hsame => ?_
        have hlookup := h.asked earlier hasked
        rw [hsame, hnone] at hlookup
        cases hlookup
  | _ => exact Iff.rfl

theorem Sound.step (h : Sound st) {call : SelectCall} (hfresh : st.Fresh call) : Sound (st.step call) := by
  cases call with
  | addHandler handler fails => exact ⟨nofun, nofun⟩
  | removeHandler tag =>
      simp only [Asking.step, Selector.removeHandler]
      split
      · exact h
      · exact ⟨nofun, nofun⟩
  | select selectors order =>
      simp only [Asking.step]
      split
      · next horder =>
          have hright := hfresh horder
          obtain ⟨cache, hcache, hselect⟩ | ⟨hnone, hselect⟩ := select_cases st selectors horder
          · rw [hselect] at hright ⊢
            refine ⟨fun other hother => ?_, fun key tags hlookup => ?_⟩
            · obtain rfl | hother := List.mem_cons.mp hother
              · exact hcache.trans (congrArg some hright)
              · exact h.asked other hother
            · obtain ⟨other, hother, hkey⟩ := h.cached key tags hlookup
              exact ⟨other, List.mem_cons_of_mem _ hother, hkey⟩
          · rw [hselect]
            have hset (key : Bytes) := Map.lookup_filter_append st.selector.tagsCache (joined selectors) key
              (st.selector.manager.candidates selectors)
            refine ⟨fun other hother => ?_, fun key tags hlookup => ?_⟩
            · have hasked := h.asked other
              grind [Map.set]
            · have hcached := h.cached key tags
              grind [Map.set]
      · exact h

/-- **When `Select` is right.** In a run every `Select` returns the sorted tags that are registered and begin
with a selector, exactly if none comes after one with other candidates whose selectors were joined to the
same text, with no handler added or removed in between. -/
theorem fresh_iff_unmixed (calls : List SelectCall) :
    Along step Fresh {} calls ↔ Along step Unmixed {} calls :=
  along_iff_along (I := Sound) (fun _ _ h hfresh => h.step hfresh)
    (fun _ call h => h.fresh_iff call) calls {} ⟨nofun, nofun⟩

/-- One selector with a comma and two selectors without are joined to the same text. -/
theorem not_fresh_comma : ¬ Along step Fresh {}
    [.addHandler ⟨0, [97]⟩ none, .select [[97], [98]] [[97]], .select [[97, 44, 98]] [[97]]] := by
  rintro ⟨-, -, hfresh, -⟩
  have hwrong := hfresh (by decide)
  simp [step, Selector.select, Selector.addHandler, Manager.candidates, Manager.tags, Manager.addHandler,
    Manager.withDefault, Manager.insert, sortStrings, selects, joined, hasPrefix, Map.set] at hwrong

end Asking

end V2RootCore.Proxyman
