import Mathlib.Data.List.Nodup
import V2RootCore.Go.Map
import V2RootCore.Proof.Go.Strings

/-!
# Setting keys of a map
-/

namespace V2RootCore.Go.Map

variable {α : Type} {m m' : Map α} {key other : Bytes} {value v : α}

def Distinct (m : Map α) : Prop := (m.map Prod.fst).Nodup

theorem distinct_nil : Distinct ([] : Map α) := List.nodup_nil

theorem Distinct.set (h : m.Distinct) (key : Bytes) (value : α) : (m.set key value).Distinct := by
  have hsub : ((m.filter fun field => field.1 ≠ key).map Prod.fst).Sublist (m.map Prod.fst) :=
    List.filter_sublist.map Prod.fst
  rw [Distinct, Map.set, List.map_append, List.nodup_append]
  refine ⟨h.sublist hsub, List.nodup_singleton _, ?_⟩
  intro k hk k' hk'
  obtain ⟨field, hfield, rfl⟩ := List.mem_map.mp hk
  have hne := (List.mem_filter.mp hfield).2
  rw [List.mem_singleton.mp hk']
  simpa using hne

theorem mem_set : (other, value) ∈ m.set key v ↔
    (other = key ∧ value = v) ∨ (other ≠ key ∧ (other, value) ∈ m) := by
  rw [Map.set, List.mem_append, List.mem_filter, List.mem_singleton, Prod.mk.injEq, or_comm,
    and_comm (a := _ ∈ m), decide_eq_true_iff]

theorem mem_of_lookup_eq_some (h : m.lookup key = some value) : (key, value) ∈ m := by
  obtain ⟨before, after, rfl, -⟩ := List.lookup_eq_some_iff.mp h
  exact List.mem_append_right _ List.mem_cons_self

theorem lookup_eq_some_iff (h : m.Distinct) : m.lookup key = some value ↔ (key, value) ∈ m := by
  induction m with
  | nil => simp
  | cons field rest ih =>
      obtain ⟨k, v⟩ := field
      rw [Distinct, List.map_cons, List.nodup_cons] at h
      rw [List.lookup_cons, List.mem_cons, ← ih h.2]
      by_cases hkey : key = k
      · subst hkey
        have hnot : List.lookup key rest ≠ some value := by
          intro hlookup
          exact h.1 (List.mem_map.mpr ⟨_, (ih h.2).mp hlookup, rfl⟩)
        simp [hnot, eq_comm]
      · have hbeq : (key == k) = false := beq_eq_false_iff_ne.mpr hkey
        simp [hbeq, hkey]

theorem lookup_eq_of_perm (h : m.Distinct) (hperm : m'.Perm m) (key : Bytes) :
    m'.lookup key = m.lookup key := by
  have h' : m'.Distinct := (hperm.map Prod.fst).nodup_iff.mpr h
  refine Option.ext fun value => ?_
  rw [lookup_eq_some_iff h', lookup_eq_some_iff h]
  exact hperm.mem_iff

section

variable {κ : Type} [BEq κ] [LawfulBEq κ] [DecidableEq κ] {k other : κ}

theorem lookup_filter_ne (m : List (κ × α)) (hother : other ≠ k) :
    (m.filter fun field => field.1 ≠ k).lookup other = m.lookup other := by
  induction m with
  | nil => rfl
  | cons field rest ih =>
      obtain ⟨first, v⟩ := field
      by_cases hk : first = k
      · have hbeq : (other == first) = false := beq_eq_false_iff_ne.mpr (hk ▸ hother)
        have hdropped : ¬ decide (first ≠ k) = true := by simp [hk]
        rw [List.filter_cons, if_neg hdropped, ih, List.lookup_cons, hbeq]
      · simp only [List.filter_cons, ne_eq, hk, not_false_eq_true, decide_true, if_true,
          List.lookup_cons, ih]

theorem lookup_filter_self (m : List (κ × α)) (k : κ) : (m.filter fun field => field.1 ≠ k).lookup k = none := by
  rw [List.lookup_eq_none_iff]
  intro field hfield
  have hne : field.1 ≠ k := of_decide_eq_true (List.mem_filter.mp hfield).2
  exact bne_iff_ne.mpr hne.symm

theorem lookup_filter (m : List (κ × α)) (k other : κ) :
    (m.filter fun field => field.1 ≠ k).lookup other = if other = k then none else m.lookup other := by
  split
  · next heq => rw [heq, lookup_filter_self]
  · next hne => exact lookup_filter_ne m hne

theorem lookup_filter_append (m : List (κ × α)) (k other : κ) (v : α) :
    (m.filter (fun field => field.1 ≠ k) ++ [(k, v)]).lookup other =
      if other = k then some v else m.lookup other := by
  rw [List.lookup_append, lookup_filter]
  split
  · next heq => simp [heq]
  · next hne => simp [List.lookup_cons, beq_eq_false_iff_ne.mpr hne]

end

theorem lookup_set_self (m : Map α) (key : Bytes) (value : α) :
    (m.set key value).lookup key = some value :=
  (lookup_filter_append m key key value).trans (if_pos rfl)

theorem lookup_set_of_ne (hother : other ≠ key) (m : Map α) (value : α) :
    (m.set key value).lookup other = m.lookup other :=
  (lookup_filter_append m key other value).trans (if_neg hother)

/-! ### Keys that are left alone -/

structure SetsOnly (keys : List Bytes) (f : Map α → Map α) : Prop where
  lookup_eq : ∀ m key, key ∉ keys → (f m).lookup key = m.lookup key
  distinct : ∀ m, m.Distinct → (f m).Distinct

namespace SetsOnly

variable {keys keys' : List Bytes} {f g : Map α → Map α}

theorem refl (keys : List Bytes) : SetsOnly keys fun m : Map α => m :=
  ⟨fun _ _ _ => rfl, fun _ h => h⟩

theorem comp (hg : SetsOnly keys' g) (hf : SetsOnly keys f) :
    SetsOnly (keys ++ keys') fun m => g (f m) := by
  constructor
  · intro m key hkey
    rw [List.mem_append, not_or] at hkey
    rw [hg.lookup_eq _ key hkey.2, hf.lookup_eq m key hkey.1]
  · exact fun m h => hg.distinct _ (hf.distinct m h)

theorem mono (hf : SetsOnly keys f) (h : keys ⊆ keys') : SetsOnly keys' f :=
  ⟨fun m key hkey => hf.lookup_eq m key fun hmem => hkey (h hmem), hf.distinct⟩

theorem set (key : Bytes) (value : α) : SetsOnly [key] fun m : Map α => m.set key value :=
  ⟨fun m _ hother => lookup_set_of_ne (List.ne_of_not_mem_cons hother) m value,
    fun _ h => h.set key value⟩

end SetsOnly

end V2RootCore.Go.Map
