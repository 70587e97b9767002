import Mathlib.Data.Fintype.EquivFin
import V2RootCore.Proof.Go.Map
import V2RootCore.Proof.Strmatcher.Matchers
import V2RootCore.Strmatcher.MatcherGroup

/-!
# What a group of matchers finds

The way down the trie reads the labels of the input from the last one on, so it meets the domains whose
labels are the last ones of the input.
-/

namespace V2RootCore.Strmatcher

open Go

/-! ### Labels -/

theorem intercalate_append {sep : Bytes} {first second : List Bytes} (hfirst : first ≠ [])
    (hsecond : second ≠ []) :
    sep.intercalate (first ++ second) = sep.intercalate first ++ (sep ++ sep.intercalate second) := by
  induction first with
  | nil => exact absurd rfl hfirst
  | cons label labels ih =>
      rw [List.cons_append, List.intercalate_cons_of_ne_nil (by simp [hsecond])]
      rcases eq_or_ne labels [] with rfl | hlabels
      · simp
      · rw [ih hlabels, List.intercalate_cons_of_ne_nil hlabels]
        simp only [List.append_assoc]

/-- A domain matches if its labels are the last ones. -/
theorem domainMatcher_eq {pattern s : Bytes} :
    domainMatcher pattern s = true ↔ (pattern.splitOn 46).reverse <+: (s.splitOn 46).reverse := by
  rw [domainMatcher_iff, List.reverse_prefix]
  constructor
  · rintro (rfl | ⟨front, rfl⟩)
    · exact List.suffix_rfl
    · rw [List.splitOn_append_cons_self]
      exact List.suffix_append _ _
  · rintro ⟨labels, heq⟩
    have hs : [46].intercalate (s.splitOn 46) = s := List.intercalate_splitOn 46
    have hpattern : [46].intercalate (pattern.splitOn 46) = pattern := List.intercalate_splitOn 46
    rcases eq_or_ne labels [] with rfl | hlabels
    · exact .inl (by rw [← hs, ← heq, List.nil_append, hpattern])
    · refine .inr ⟨[46].intercalate labels, ?_⟩
      rw [← hs, ← heq, intercalate_append hlabels (List.splitOn_ne_nil 46 pattern), hpattern]
      rfl

theorem not_mem_of_nextPart {domain : Bytes} {idx : Nat} (h : nextPart domain idx = none) :
    46 ∉ domain.take idx := by
  induction idx with
  | zero => simp
  | succ i ih =>
      rw [nextPart] at h
      rw [List.take_add_one]
      split at h
      · cases h
      · simp_all

theorem dot_of_nextPart {domain : Bytes} {idx nidx : Nat} (h : nextPart domain idx = some nidx) :
    domain[nidx]? = some 46 ∧ 46 ∉ (domain.take idx).drop (nidx + 1) := by
  induction idx with
  | zero => cases h
  | succ i ih =>
      rw [nextPart] at h
      split at h
      · cases h
        simp_all
      · obtain ⟨hdot, hmem⟩ := ih h
        have hlt := nextPart_lt h
        have hlength : nidx + 1 ≤ (domain.take i).length := by grind
        rw [List.take_add_one, List.drop_append_of_le_length hlength, List.mem_append]
        simp_all

theorem take_of_nextPart {domain : Bytes} {idx nidx : Nat} (h : nextPart domain idx = some nidx) :
    domain.take idx = domain.take nidx ++ 46 :: (domain.take idx).drop (nidx + 1) := by
  have hdot := (dot_of_nextPart h).1
  have hlt := nextPart_lt h
  have htake : (domain.take idx).take nidx = domain.take nidx := by grind
  rw [← htake]
  conv_lhs => rw [← List.take_append_drop nidx (domain.take idx), List.drop_eq_getElem_cons (by grind)]
  grind

/-- The walk takes the last label. -/
theorem splitOn_take (domain : Bytes) (idx : Nat) :
    (domain.take idx).splitOn 46 = ((nextPart domain idx).elim [] fun nidx => (domain.take nidx).splitOn 46) ++
      [(domain.take idx).drop ((nextPart domain idx).elim 0 (· + 1))] := by
  cases hidx : nextPart domain idx with
  | none => exact List.splitOn_eq_singleton (not_mem_of_nextPart hidx)
  | some nidx =>
      conv_lhs => rw [take_of_nextPart hidx]
      rw [List.splitOn_append_cons_self, List.splitOn_eq_singleton (dot_of_nextPart hidx).2]
      rfl

/-! ### The trie -/

namespace Node

/-- The values met along the labels. -/
def along : Node → List Bytes → List UInt32
  | _, [] => []
  | node, part :: parts => ((node.sub.lookup part).map fun next => next.values ++ next.along parts).getD []

theorem flatten_walk (domain : Bytes) (node : Node) (idx : Nat) :
    (node.walk domain idx).flatten = node.along ((domain.take idx).splitOn 46).reverse := by
  induction idx using Nat.strong_induction_on generalizing node with
  | _ idx ih =>
      rw [walk, splitOn_take, List.reverse_append, List.reverse_singleton, List.singleton_append, along]
      cases node.sub.lookup ((domain.take idx).drop ((nextPart domain idx).elim 0 (· + 1))) with
      | none => rfl
      | some next =>
          have hvalues : (if next.values = [] then [] else [next.values]).flatten = next.values := by
            split <;> simp_all
          simp only [List.flatten_append, hvalues, Option.map_some, Option.getD_some]
          congr 1
          split <;> rename_i hidx
          · simp [hidx, along]
          · simp [hidx, ih _ (nextPart_lt hidx)]

@[simp]
theorem along_empty (parts : List Bytes) : (mk [] []).along parts = [] := by
  cases parts <;> rfl

theorem along_cons (node : Node) (part : Bytes) (parts : List Bytes) : node.along (part :: parts) =
    ((node.sub.lookup part).getD (mk [] [])).values ++ ((node.sub.lookup part).getD (mk [] [])).along parts := by
  rw [along]
  cases node.sub.lookup part with
  | none => simp [values]
  | some next => rfl

theorem along_congr {first second : Node} (hsub : first.sub = second.sub) (parts : List Bytes) :
    first.along parts = second.along parts := by
  cases parts <;> simp only [along, hsub]

theorem perm_along_add (value : UInt32) (path parts : List Bytes) (node : Node) (hpath : path ≠ []) :
    ((node.add value path).along parts).Perm (node.along parts ++ if path <+: parts then [value] else []) := by
  induction path generalizing parts node with
  | nil => exact absurd rfl hpath
  | cons label path ih =>
      cases parts with
      | nil => simp [along]
      | cons part parts =>
          simp only [along_cons, List.cons_prefix_cons]
          rcases ne_or_eq part label with hne | rfl
          · have hlookup : (node.add value (label :: path)).sub.lookup part = node.sub.lookup part :=
              Map.lookup_set_of_ne hne _ _
            rw [hlookup, if_neg (fun h => hne h.1.symm), List.append_nil]
          · generalize hnext : (node.sub.lookup part).getD (mk [] []) = next
            have hlookup : (node.add value (part :: path)).sub.lookup part = some (next.add value path) := by
              rw [← hnext]
              exact Map.lookup_set_self _ _ _
            rw [hlookup, Option.getD_some]
            cases path with
            | nil =>
                -- the value is put at this node
                have hrest := along_congr (show (next.add value []).sub = next.sub from rfl) parts
                rw [hrest, show (next.add value []).values = next.values ++ [value] from rfl]
                rw [if_pos ⟨rfl, List.nil_prefix⟩, List.append_assoc, List.append_assoc]
                exact List.perm_append_comm.append_left _
            | cons label path =>
                have hrest := ih parts next (by simp)
                rw [show (next.add value (label :: path)).values = next.values from rfl, List.append_assoc]
                simpa only [true_and] using hrest.append_left next.values

end Node

namespace DomainMatcherGroup

theorem perm_matchInput_add (g : DomainMatcherGroup) (domain s : Bytes) (value : UInt32) (hs : s ≠ []) :
    ((g.add domain value).matchInput s).Perm
      (g.matchInput s ++ if domainMatcher domain s then [value] else []) := by
  have hroot (g : DomainMatcherGroup) : (g.matchInput s).Perm
      ((g.root.getD (.mk [] [])).along (s.splitOn 46).reverse) := by
    rw [matchInput, if_neg hs]
    cases g.root with
    | none => simp
    | some root =>
        have hwalk := root.flatten_walk s s.length
        rw [List.take_length] at hwalk
        exact hwalk ▸ (List.reverse_perm _).flatten
  have hadd := Node.perm_along_add value (domain.splitOn 46).reverse (s.splitOn 46).reverse
    (g.root.getD (.mk [] [])) (by simp [List.splitOn_ne_nil])
  simp only [← domainMatcher_eq] at hadd
  exact (hroot _).trans (hadd.trans ((hroot g).symm.append_right _))

end DomainMatcherGroup

/-! ### The group -/

theorem FullMatcherGroup.matchInput_add (g : FullMatcherGroup) (domain s : Bytes) (value : UInt32) :
    (g.add domain value).matchInput s = g.matchInput s ++ if fullMatcher domain s then [value] else [] := by
  have hlookup := Map.lookup_filter_append g.matchers domain s ((g.matchers.lookup domain).getD [] ++ [value])
  grind [FullMatcherGroup.matchInput, FullMatcherGroup.add, Map.set, fullMatcher]

namespace MatcherGroup

variable (matchers : List Matcher)

theorem perm_matchInput_add (g : MatcherGroup) (m : Matcher) {s : Bytes} (hs : s ≠ []) :
    ((g.add m).1.matchInput s).Perm (g.matchInput s ++ if m.accepts s then [(g.add m).2] else []) := by
  refine List.perm_iff_count.mpr fun id => ?_
  cases m with
  | full pattern =>
      have hadd : (g.fullMatcher.add pattern (g.count + 1)).matchInput s = g.fullMatcher.matchInput s ++
          if (Matcher.full pattern).accepts s then [g.count + 1] else [] :=
        g.fullMatcher.matchInput_add pattern s (g.count + 1)
      simp only [add, matchInput, hadd, List.count_append]
      omega
  | domain pattern =>
      have hadd : ((g.domainMatcher.add pattern (g.count + 1)).matchInput s).Perm
          (g.domainMatcher.matchInput s ++ if (Matcher.domain pattern).accepts s then [g.count + 1] else []) :=
        g.domainMatcher.perm_matchInput_add pattern s (g.count + 1) hs
      simp only [add, matchInput, hadd.count_eq, List.count_append]
      omega
  | other text accepts =>
      simp only [add, matchInput, List.filter_append, List.map_append, List.count_append, List.filter_singleton]
      split
      · simp_all
        omega
      · simp_all

/-! ### Sequences of calls -/

theorem addAll_concat (m : Matcher) : addAll (matchers ++ [m]) =
    (((addAll matchers).1.add m).1, (addAll matchers).2 ++ [(m, ((addAll matchers).1.add m).2)]) := by
  rw [addAll, List.foldl_append]
  rfl

theorem count_add (g : MatcherGroup) (m : Matcher) : (g.add m).1.count = (g.add m).2 ∧
    (g.add m).2 = g.count + 1 := by
  cases m <;> exact ⟨rfl, rfl⟩

theorem count_addAll :
    (addAll matchers).1.count = UInt32.ofNat matchers.length := by
  induction matchers using List.reverseRecOn with
  | nil => rfl
  | append_singleton matchers m ih =>
      rw [addAll_concat, (count_add _ m).1, (count_add _ m).2, ih, List.length_append, List.length_singleton,
        UInt32.ofNat_add]
      rfl

theorem addAll_snd :
    (addAll matchers).2 = matchers.zipIdx.map fun entry => (entry.1, UInt32.ofNat (entry.2 + 1)) := by
  induction matchers using List.reverseRecOn with
  | nil => rfl
  | append_singleton matchers m ih =>
      rw [addAll_concat, ih, List.zipIdx_append, List.map_append, (count_add _ m).2, count_addAll,
        ← UInt32.ofNat_one, ← UInt32.ofNat_add]
      simp

theorem perm_matchInput_addAll {s : Bytes} (hs : s ≠ []) :
    ((addAll matchers).1.matchInput s).Perm
      (((addAll matchers).2.filter fun entry => entry.1.accepts s).map Prod.snd) := by
  induction matchers using List.reverseRecOn with
  | nil => simp [addAll, matchInput, FullMatcherGroup.matchInput, DomainMatcherGroup.matchInput]
  | append_singleton matchers m ih =>
      rw [addAll_concat]
      rw [List.filter_append, List.map_append, List.filter_singleton]
      refine ((addAll matchers).1.perm_matchInput_add m hs).trans ?_
      convert ih.append_right _ using 2
      cases m.accepts s <;> rfl

theorem getElem_addAll {k : Nat} (hk : k < (addAll matchers).2.length) :
    ((addAll matchers).2[k]).2.toNat = (k + 1) % 2 ^ 32 := by
  simp [addAll_snd]

theorem length_addAll : (addAll matchers).2.length = matchers.length := by
  simp [addAll_snd]

/-- The numbers go up. -/
theorem pairwise_addAll (hlength : matchers.length < 2 ^ 32) :
    (addAll matchers).2.Pairwise fun first second => first.2 < second.2 := by
  refine List.pairwise_iff_getElem.mpr fun first second hfirst hsecond hlt => ?_
  rw [UInt32.lt_iff_toNat_lt, getElem_addAll, getElem_addAll]
  rw [length_addAll] at hfirst hsecond
  omega

theorem nodup_map_snd_addAll {matchers : List Matcher} (hlength : matchers.length ≤ 2 ^ 32) :
    ((addAll matchers).2.map Prod.snd).Nodup := by
  refine List.pairwise_map.mpr (List.pairwise_iff_getElem.mpr fun first second hfirst hsecond hlt heq => ?_)
  have hmod := congrArg UInt32.toNat heq
  rw [getElem_addAll, getElem_addAll] at hmod
  rw [length_addAll] at hfirst hsecond
  omega

/-- **A group finds the matchers that accept the input, each once, as long as the numbers last.** -/
theorem matchInput_exact (s : Bytes) (hs : s ≠ []) (hlength : matchers.length ≤ 2 ^ 32) :
    ((addAll matchers).2.map Prod.snd).Nodup ∧ ((addAll matchers).1.matchInput s).Nodup ∧
      ∀ id, id ∈ (addAll matchers).1.matchInput s ↔ ∃ m, (m, id) ∈ (addAll matchers).2 ∧ m.accepts s := by
  have hperm := perm_matchInput_addAll matchers hs
  have hnodup := nodup_map_snd_addAll hlength
  refine ⟨hnodup, hperm.nodup_iff.mpr (hnodup.sublist (List.filter_sublist.map _)), fun id => ?_⟩
  rw [hperm.mem_iff]
  simp

theorem matchInput_local :
    2 ∈ (addAll [.full (ascii "a.lan"), .domain (ascii "lan"), .substr (ascii "b")]).1.matchInput
      (ascii "x.lan") :=
  ((matchInput_exact [.full (ascii "a.lan"), .domain (ascii "lan"), .substr (ascii "b")] (ascii "x.lan")
    (by decide) (by decide)).2.2 2).mpr ⟨.domain (ascii "lan"), by simp [addAll, add], by decide⟩

/-- After 2^32 calls the numbers come again. -/
theorem matchInput_twice :
    ∃ matchers : List Matcher, ¬ ((addAll matchers).1.matchInput (ascii "lan")).Nodup := by
  refine ⟨List.replicate (2 ^ 32 + 1) (.full (ascii "lan")), fun hnodup => ?_⟩
  generalize hn : 2 ^ 32 + 1 = n at hnodup
  have hperm := perm_matchInput_addAll (List.replicate n (.full (ascii "lan"))) (s := ascii "lan") (by decide)
  have hall : ((addAll (List.replicate n (.full (ascii "lan")))).2.filter
      fun entry => entry.1.accepts (ascii "lan")) = (addAll (List.replicate n (.full (ascii "lan")))).2 := by
    refine List.filter_eq_self.mpr fun entry hentry => ?_
    rw [addAll_snd] at hentry
    obtain ⟨⟨m, k⟩, hmem, rfl⟩ := List.mem_map.mp hentry
    rw [List.eq_of_mem_replicate (List.fst_mem_of_mem_zipIdx hmem)]
    decide
  have hlength := hperm.length_eq
  rw [hall, List.length_map, length_addAll, List.length_replicate] at hlength
  have hcard := (hnodup.map fun _ _ => UInt32.toFin_inj.mp).length_le_card
  rw [List.length_map, Fintype.card_fin] at hcard
  have hsize : UInt32.size = 2 ^ 32 := rfl
  omega

end MatcherGroup

end V2RootCore.Strmatcher
