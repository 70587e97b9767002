import V2RootCore.Kcp.Receiving

/-!
# What the receiving side does to its window and its acknowledgements

The window is seen through `lookup`, and the acknowledgement list as the list of its numbers, each
with the payload it was issued for. Flushing only moves flush times; the segments it writes carry
numbers of the list.
-/

namespace V2RootCore.Kcp

variable {β : Type}

namespace ReceivingWindow

def lookup (window : ReceivingWindow β) (id : UInt32) : Option (DataSegment β) :=
  window.cache.lookup id

@[simp]
theorem lookup_empty (id : UInt32) : ({} : ReceivingWindow β).lookup id = none :=
  AList.lookup_empty id

theorem lookup_set (window : ReceivingWindow β) (id other : UInt32) (value : DataSegment β) :
    (window.set id value).1.lookup other
      = if other = id then some ((window.lookup id).getD value) else window.lookup other := by
  unfold set lookup
  cases hfound : AList.lookup id window.cache with
  | some found =>
      simp only [Option.getD_some]
      split
      · rename_i heq
        rw [heq, hfound]
      · rfl
  | none =>
      simp only [Option.getD_none]
      split
      · rename_i heq
        rw [heq, AList.lookup_insert]
      · rename_i hne
        exact AList.lookup_insert_ne hne

theorem remove_eq_some {window window' : ReceivingWindow β} {id : UInt32} {seg : DataSegment β}
    (hremove : window.remove id = (window', some seg)) :
    window.lookup id = some seg ∧
      ∀ other, window'.lookup other = if other = id then none else window.lookup other := by
  unfold remove at hremove
  unfold lookup
  cases hfound : AList.lookup id window.cache with
  | none => simp [hfound] at hremove
  | some found =>
      rw [hfound] at hremove
      obtain ⟨rfl, hseg⟩ := Prod.mk.inj hremove
      refine ⟨hseg, fun other => ?_⟩
      split
      · rename_i heq
        rw [heq, AList.lookup_erase]
      · rename_i hne
        exact AList.lookup_erase_ne hne

end ReceivingWindow

namespace ReceivingWorker

theorem processSegment_cases (w : ReceivingWorker β) (seg : DataSegment β) :
    w.processSegment seg = w ∨
      seg.number - w.nextNumber < w.windowSize ∧
        (w.processSegment seg).window = (w.window.set seg.number seg).1 ∧
        (w.processSegment seg).nextNumber = w.nextNumber ∧
        (w.processSegment seg).leftOver = w.leftOver ∧
        (w.processSegment seg).windowSize = w.windowSize := by
  unfold processSegment
  simp only
  split
  · exact Or.inl rfl
  · rename_i hidx
    exact Or.inr ⟨UInt32.not_le.mp hidx, rfl, rfl, rfl, rfl⟩

theorem readLoop_induction {P : ReceivingWorker β → List β → Prop}
    (hround : ∀ w mb window seg, P w mb → w.window.remove w.nextNumber = (window, some seg) →
      P { w with window, nextNumber := w.nextNumber + 1 } (mb ++ [seg.payload]))
    (fuel : Nat) (w : ReceivingWorker β) (mb : List β) (hstart : P w mb) :
    P (readLoop fuel w mb).1 (readLoop fuel w mb).2 := by
  induction fuel generalizing w mb with
  | zero => exact hstart
  | succ fuel ih =>
      rcases hremove : w.window.remove w.nextNumber with ⟨window, found⟩
      cases found with
      | none => simpa only [readLoop, hremove] using hstart
      | some seg =>
          simp only [readLoop, hremove]
          exact ih _ _ (hround w mb window seg hstart hremove)

end ReceivingWorker

end V2RootCore.Kcp
