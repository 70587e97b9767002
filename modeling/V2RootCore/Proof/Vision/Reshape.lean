import V2RootCore.Vision.Reshape
import V2RootCore.Proof.Vision.Padding
import V2RootCore.Proof.Go.Slices

/-!
# Padding keeps the content

A block takes up to 8171 bytes of content; more makes the number of padding bytes negative, and extending the new
buffer by it panics. Reshaping cuts a large buffer once, so what matters is what is left behind the cut.
-/

namespace V2RootCore.Vision

open Go

theorem xtlsPadding_of_long {b : Option Bytes} (hb : 8171 < (b.getD []).length) (command : UInt8)
    (userUUID : Bytes) (longPadding : Bool) (l : Nat) :
    xtlsPadding b command userUUID longPadding l = .error .panicked := by
  have hsize : ((Buf.size : Nat) : Int) = 8192 := rfl
  have hnegative : paddingLen (b.getD []).length longPadding l < 0 :=
    lt_of_le_of_lt (min_le_right _ _) (by omega)
  rw [xtlsPadding, extend, if_pos (Or.inr hnegative)]
  rfl

/-- The new buffers with these blocks, the first one behind the user id. -/
def newBuffers (userUUID : Bytes) : List Block → List Bytes
  | [] => []
  | block :: blocks => (userUUID ++ block.bytes) :: blocks.map Block.bytes

theorem newBuffers_nil (blocks : List Block) : newBuffers [] blocks = blocks.map Block.bytes := by
  cases blocks <;> rfl

variable {choice : Nat → Choice} {i : Nat} {userUUID : Bytes} {buffers : List (Option Bytes)}

theorem exists_padBuffers (choice : Nat → Choice) (i : Nat) (huuid : userUUID.length ≤ 16)
    (hbuffers : ∀ b ∈ buffers, (b.getD []).length ≤ 8171) :
    ∃ blocks, padBuffers choice i userUUID buffers = .ok (newBuffers userUUID blocks) ∧
      contentOf blocks = buffers.flatMap fun b => b.getD [] := by
  induction buffers generalizing i userUUID with
  | nil => exact ⟨[], rfl, rfl⟩
  | cons b buffers ih =>
      obtain ⟨hb, hrest⟩ := List.forall_mem_cons.mp hbuffers
      obtain ⟨block, -, hcontent, hpadding⟩ :=
        xtlsPadding_eq hb (choice i).command huuid (choice i).longPadding (choice i).l
      obtain ⟨blocks, hblocks, hcontents⟩ := @ih [] (i + 1) (Nat.zero_le _) hrest
      refine ⟨block :: blocks, ?_, ?_⟩
      · rw [padBuffers, hpadding, ok_bind]
        dsimp only
        rw [hblocks, newBuffers_nil]
        rfl
      · rw [List.flatMap_cons, ← hcontents, ← hcontent]
        rfl

theorem length_le_of_padBuffers {blocks : List Bytes}
    (hpad : padBuffers choice i userUUID buffers = .ok blocks) :
    ∀ b ∈ buffers, (b.getD []).length ≤ 8171 := by
  induction buffers generalizing i userUUID blocks with
  | nil => exact List.forall_mem_nil _
  | cons b buffers ih =>
      rw [padBuffers] at hpad
      obtain ⟨⟨block, userUUID'⟩, hblock, hrest⟩ := bind_eq_ok.mp hpad
      obtain ⟨rest, hpadrest, -⟩ := bind_eq_ok.mp hrest
      refine List.forall_mem_cons.mpr ⟨?_, ih hpadrest⟩
      by_contra hlong
      rw [xtlsPadding_of_long (not_le.mp hlong)] at hblock
      cases hblock

section Reshape

variable {b : Option Bytes}

theorem cutIndex_le (content : Bytes) : cutIndex content ≤ 8171 := by
  have hsize : ((Buf.size : Nat) : Int) = 8192 := rfl
  unfold cutIndex
  dsimp only
  split
  · decide
  · omega

/-- What is left behind the cut, if there is one, fits a block. -/
def RestFits (content : Bytes) : Prop := 8171 ≤ content.length → content.length - cutIndex content ≤ 8171

theorem reshapeBuffer_of_short (hshort : ¬ 8171 ≤ (b.getD []).length) : reshapeBuffer b = [b] :=
  if_neg hshort

theorem length_le_reshapeBuffer_iff :
    (∀ piece ∈ reshapeBuffer b, (piece.getD []).length ≤ 8171) ↔ RestFits (b.getD []) := by
  by_cases hlong : 8171 ≤ (b.getD []).length
  · have hcut := cutIndex_le (b.getD [])
    have hsize : Buf.size = 8192 := rfl
    rw [show reshapeBuffer b = _ from if_pos hlong, List.forall_mem_cons, List.forall_mem_singleton]
    simp only [Option.getD_some, write, List.nil_append, List.length_take, List.length_drop, List.length_nil,
      Nat.sub_zero, hsize, RestFits]
    omega
  · rw [reshapeBuffer_of_short hlong, List.forall_mem_singleton]
    exact iff_of_true (not_le.mp hlong).le fun h => absurd h hlong

theorem content_reshapeBuffer (hfits : RestFits (b.getD [])) :
    ((reshapeBuffer b).flatMap fun piece => piece.getD []) = b.getD [] := by
  by_cases hlong : 8171 ≤ (b.getD []).length
  · have hsize : Buf.size = 8192 := rfl
    have hrest : (b.getD []).length - cutIndex (b.getD []) ≤ 8171 := hfits hlong
    have hwrite : write [] ((b.getD []).drop (cutIndex (b.getD []))) =
        (b.getD []).drop (cutIndex (b.getD [])) := by
      rw [write, List.nil_append, List.take_of_length_le]
      rw [List.length_drop, List.length_nil, hsize]
      omega
    rw [show reshapeBuffer b = _ from if_pos hlong, hwrite]
    simp
  · rw [reshapeBuffer_of_short hlong]
    simp

theorem reshapeMultiBuffer_eq (buffers : List (Option Bytes)) :
    reshapeMultiBuffer buffers = buffers.flatMap reshapeBuffer := by
  unfold reshapeMultiBuffer
  dsimp only
  split
  · next hnone =>
      rw [List.countP_eq_zero] at hnone
      symm
      calc buffers.flatMap reshapeBuffer
          = buffers.flatMap (fun b => [b]) := by
            refine List.flatMap_congr fun b hb => ?_
            exact reshapeBuffer_of_short fun hlong => hnone b hb (decide_eq_true hlong)
        _ = buffers := List.flatMap_singleton' buffers
  · rfl

theorem length_le_reshapeMultiBuffer_iff {buffers : List (Option Bytes)} :
    (∀ piece ∈ reshapeMultiBuffer buffers, (piece.getD []).length ≤ 8171) ↔
      ∀ b ∈ buffers, RestFits (b.getD []) := by
  rw [reshapeMultiBuffer_eq, List.forall_mem_flatMap]
  exact forall₂_congr fun b _ => length_le_reshapeBuffer_iff

end Reshape

/-- The user id, if it is still to be written. -/
def userBytes (user : Option (List.Vector UInt8 16)) : Bytes := (user.map List.Vector.toList).getD []

theorem length_userBytes_le (user : Option (List.Vector UInt8 16)) : (userBytes user).length ≤ 16 := by
  cases user with
  | none => exact Nat.zero_le _
  | some user => exact user.length_val.le

/-- Every buffer becomes blocks whose heads state the lengths of their content and padding, and the contents
together are the original bytes. -/
def KeepsContent (user : Option (List.Vector UInt8 16)) (choice : Nat → Choice) (buffers : List (Option Bytes)) :
    Prop :=
  ∃ blocks, padBuffers choice 0 (userBytes user) (reshapeMultiBuffer buffers) =
      .ok (newBuffers (userBytes user) blocks) ∧
    contentOf blocks = buffers.flatMap fun b => b.getD []

/-- **Padding keeps the content exactly when at most 8171 bytes are left behind the cut of each large buffer.** -/
theorem keepsContent_iff (user : Option (List.Vector UInt8 16)) (choice : Nat → Choice)
    (buffers : List (Option Bytes)) :
    KeepsContent user choice buffers ↔ ∀ b ∈ buffers, RestFits (b.getD []) := by
  constructor
  · rintro ⟨blocks, hpad, -⟩
    exact length_le_reshapeMultiBuffer_iff.mp (length_le_of_padBuffers hpad)
  · intro hfits
    obtain ⟨blocks, hpad, hcontent⟩ := exists_padBuffers choice 0
      (length_userBytes_le user) (length_le_reshapeMultiBuffer_iff.mpr hfits)
    refine ⟨blocks, hpad, hcontent.trans ?_⟩
    rw [reshapeMultiBuffer_eq, List.flatMap_assoc]
    exact List.flatMap_congr fun b hb => content_reshapeBuffer (hfits b hb)

theorem not_keepsContent_of_long {b : Bytes} (hb : 16342 < b.length) (choice : Nat → Choice) :
    ¬ KeepsContent none choice [some b] := by
  rintro ⟨blocks, hpad, -⟩
  have hfits := length_le_reshapeMultiBuffer_iff.mp (length_le_of_padBuffers hpad) (some b)
    List.mem_cons_self
  have hcut := cutIndex_le b
  have hrest : b.length - cutIndex b ≤ 8171 := hfits (by rw [Option.getD_some]; omega)
  omega

/-- A buffer of 16343 bytes, as a gRPC hunk may have, makes the padding panic. -/
theorem not_keepsContent_hunk :
    ¬ KeepsContent none (fun _ => ⟨commandPaddingContinue, false, 0⟩) [some (List.replicate 16343 0)] :=
  not_keepsContent_of_long (by rw [List.length_replicate]; decide) _

end V2RootCore.Vision
