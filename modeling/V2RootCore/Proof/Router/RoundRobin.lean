import Mathlib.Data.List.Rotate
import V2RootCore.Proof.Go.Map
import V2RootCore.Router.RoundRobin

/-!
# Every alive outbound has its turn
-/

namespace V2RootCore.Router

open Go

variable {observation : Option (List OutboundStatus)} {tags : List Bytes}

theorem lookup_statusMap (status : List OutboundStatus) (m : Map OutboundStatus) (tag : Bytes) :
    (status.foldl (fun m status => m.set status.outboundTag status) m).lookup tag =
      (status.reverse.find? (·.outboundTag = tag)).or (m.lookup tag) := by
  induction status generalizing m with
  | nil => rfl
  | cons head status ih =>
      rw [List.foldl_cons, ih, List.reverse_cons, List.find?_append, Option.or_assoc]
      by_cases htag : head.outboundTag = tag
      · rw [htag, Map.lookup_set_self]
        simp [htag]
      · rw [Map.lookup_set_of_ne (Ne.symm htag)]
        simp [htag]

/-- The candidates that were not observed, or were alive when observed last. -/
theorem aliveTags_eq : aliveTags observation tags = tags.filter fun tag =>
    ((observation.getD []).reverse.find? (·.outboundTag = tag)).all OutboundStatus.alive := by
  cases observation with
  | none => simp [aliveTags]
  | some status => simp only [aliveTags, lookup_statusMap, List.lookup_nil, Option.or_none, Option.getD_some]

namespace RoundRobinStrategy

variable {s : RoundRobinStrategy}

theorem pickOutbound_spec {tag : Bytes} {rest : List Bytes}
    (h : (aliveTags observation tags).rotate s.index = tag :: rest) :
    (s.pickOutbound observation tags).1 = tag ∧
      (aliveTags observation tags).rotate (s.pickOutbound observation tags).2.index = rest ++ [tag] := by
  have hlength := congrArg List.length h
  rw [List.length_rotate] at hlength
  have hne : (aliveTags observation tags).length ≠ 0 := hlength ▸ Nat.succ_ne_zero _
  simp only [pickOutbound, dif_neg hne]
  constructor
  · have hhead := List.head?_rotate (Nat.mod_lt s.index (Nat.pos_of_ne_zero hne))
    rw [List.rotate_mod, h] at hhead
    exact (List.getElem_eq_iff _).mpr hhead.symm
  · rw [List.rotate_mod, ← List.rotate_rotate, h, List.rotate_cons_succ, List.rotate_zero]

theorem picks_eq {front rest : List Bytes} (h : (aliveTags observation tags).rotate s.index = front ++ rest) :
    picks observation tags front.length s = front := by
  induction front generalizing s rest with
  | nil => rfl
  | cons tag front ih =>
      obtain ⟨hpick, hnext⟩ := pickOutbound_spec h
      exact congrArg₂ List.cons hpick (ih (hnext.trans (List.append_assoc front rest [tag])))

/-- **Every outbound has its turn.** As many calls as there are alive candidates pick each of them once. -/
theorem picks_perm (s : RoundRobinStrategy) :
    (picks observation tags (aliveTags observation tags).length s).Perm (aliveTags observation tags) := by
  have hpicks := picks_eq (List.append_nil ((aliveTags observation tags).rotate s.index)).symm
  rw [List.length_rotate] at hpicks
  rw [hpicks]
  exact List.rotate_perm _ _

end RoundRobinStrategy

end V2RootCore.Router
