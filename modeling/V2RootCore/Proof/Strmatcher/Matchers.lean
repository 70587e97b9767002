import V2RootCore.Strmatcher.Matchers

/-!
# What a domain matches
-/

namespace V2RootCore.Strmatcher

open Go

theorem domainMatcher_append (front pattern : Bytes) (dot : UInt8) :
    domainMatcher pattern (front ++ dot :: pattern) = decide (dot = 46) := by
  have hsuffix : pattern <:+ front ++ dot :: pattern := ⟨front ++ [dot], by simp⟩
  have hlength : (front ++ dot :: pattern).length - pattern.length - 1 = front.length := by
    simp only [List.length_append, List.length_cons]
    omega
  have hne : (front ++ dot :: pattern).length ≠ pattern.length := by
    simp only [List.length_append, List.length_cons]
    omega
  rw [domainMatcher, hasSuffix, if_pos (List.isSuffixOf_iff_suffix.mpr hsuffix), hlength, decide_eq_false hne]
  simp

theorem domainMatcher_iff {pattern s : Bytes} :
    domainMatcher pattern s = true ↔ s = pattern ∨ 46 :: pattern <:+ s := by
  constructor
  · intro h
    have hsuffix : pattern <:+ s := by
      by_contra hnot
      rw [domainMatcher, hasSuffix, if_neg (by rwa [List.isSuffixOf_iff_suffix])] at h
      cases h
    obtain ⟨front, rfl⟩ := hsuffix
    rcases List.eq_nil_or_concat' front with rfl | ⟨front, dot, rfl⟩
    · exact .inl rfl
    · rw [List.append_assoc, List.singleton_append] at h ⊢
      rw [domainMatcher_append, decide_eq_true_eq] at h
      exact .inr ⟨front, by rw [h]⟩
  · rintro (rfl | ⟨front, rfl⟩)
    · simp [domainMatcher, hasSuffix]
    · rw [domainMatcher_append, decide_eq_true rfl]

end V2RootCore.Strmatcher
