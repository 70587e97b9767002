import V2RootCore.Go.Slices
import V2RootCore.Loop
import V2RootCore.Proof.Go.Strings

/-!
# Code that does not panic

`Safe x P` says that `x` does not panic and that what it returns, if it returns no error, has the property
`P`. The rules follow the code, and each index or slice leaves the goal that it is in range.
-/

namespace V2RootCore.Go

section Int32

theorem int32_eq {x : Int} (hlow : -2 ^ 31 ≤ x) (hhigh : x < 2 ^ 31) : int32 x = x := by
  rw [int32]
  exact Int.bmod_eq_of_le (by omega) (by omega)

theorem int32_range (x : Int) : -2 ^ 31 ≤ int32 x ∧ int32 x < 2 ^ 31 := by
  rw [int32]
  have hlow : -(((2 ^ 32 : Nat) : Int) / 2) ≤ x.bmod (2 ^ 32) := Int.le_bmod (by norm_num)
  have hhigh : x.bmod (2 ^ 32) < (((2 ^ 32 : Nat) : Int) + 1) / 2 := Int.bmod_lt (by norm_num)
  omega

theorem int32_le_of_nonneg {x : Int} (hx : 0 ≤ x) : int32 x ≤ x := by
  rw [int32, Int.bmod_def]
  split <;> omega

end Int32

theorem int64_eq {x : Int} (hlow : -2 ^ 63 ≤ x) (hhigh : x < 2 ^ 63) : int64 x = x := by
  rw [int64]
  exact Int.bmod_eq_of_le (by omega) (by omega)

def Safe {α : Type} (x : Except Error α) (P : α → Prop) : Prop :=
  x ≠ .error .panicked ∧ ∀ a, x = .ok a → P a

namespace Safe

variable {α β : Type} {x : Except Error α} {P Q : α → Prop} {R : β → Prop}

theorem ok {a : α} (h : P a) : Safe (.ok a) P :=
  ⟨nofun, fun _ ha => Except.ok.inj ha ▸ h⟩

theorem error {err : Error} (h : err ≠ .panicked) : Safe (.error err) P :=
  ⟨fun herr => h (Except.error.inj herr), nofun⟩

theorem mono (h : Safe x P) (hPQ : ∀ a, P a → Q a) : Safe x Q :=
  ⟨h.1, fun a ha => hPQ a (h.2 a ha)⟩

theorem bind {f : α → Except Error β} (h : Safe x P) (hf : ∀ a, P a → Safe (f a) R) :
    Safe (x >>= f) R := by
  cases x with
  | error err => exact Safe.error fun herr => h.1 (congrArg Except.error herr)
  | ok a => exact hf a (h.2 a rfl)

theorem ite {c : Prop} [Decidable c] {y : Except Error α} (hx : c → Safe x P) (hy : ¬c → Safe y P) :
    Safe (if c then x else y) P := by
  split_ifs with h
  · exact hx h
  · exact hy h

end Safe

theorem ok_bind {α β : Type} (a : α) (f : α → Except Error β) : (Except.ok a >>= f) = f a := rfl

theorem ite_error_eq_ok {α : Type} {c : Prop} [Decidable c] {err : Error} {x : Except Error α} {a : α} :
    (if c then .error err else x) = .ok a ↔ ¬c ∧ x = .ok a := by
  split_ifs with hc
  · exact iff_of_false nofun fun h => h.1 hc
  · exact (and_iff_right hc).symm

section Indices

variable {b : Bytes} {i low high : Int}

theorem safe_byteAt (hlow : 0 ≤ i) (hhigh : i < b.length) : Safe (byteAt b i) fun _ => True := by
  rw [byteAt, if_pos ⟨hlow, hhigh⟩]
  exact .ok trivial

theorem safe_setByteAt {x : UInt8} (hlow : 0 ≤ i) (hhigh : i < b.length) :
    Safe (setByteAt b i x) fun b' => b'.length = b.length := by
  rw [setByteAt, if_pos ⟨hlow, hhigh⟩]
  exact .ok List.length_set

theorem safe_slice (hlow : 0 ≤ low) (hle : low ≤ high) (hhigh : high ≤ b.length) :
    Safe (slice b low high) fun b' => (b'.length : Int) = high - low := by
  rw [slice, if_pos ⟨hlow, hle, hhigh⟩]
  refine .ok ?_
  rw [List.length_drop, List.length_take]
  omega

theorem safe_sliceFrom (hlow : 0 ≤ low) (hle : low ≤ b.length) :
    Safe (sliceFrom b low) fun b' => (b'.length : Int) = b.length - low :=
  safe_slice hlow hle le_rfl

theorem slice_eq_ok {b' : Bytes} (h : slice b low high = .ok b') :
    0 ≤ low ∧ low ≤ high ∧ high ≤ b.length := by
  rw [slice] at h
  split_ifs at h with hrange
  exact hrange

end Indices

theorem safe_loop {σ ρ : Type} {body : σ → Except Error (ρ ⊕ σ)} {P : ρ → Prop} (Inv : σ → Prop)
    (measure : σ → Nat)
    (hbody : ∀ s, Inv s → Safe (body s) (Sum.elim P fun s' => Inv s' ∧ measure s' < measure s))
    {fuel : Nat} {s : σ} (hs : Inv s) (hfuel : measure s < fuel) :
    Safe (loop .panicked body fuel s) P := by
  have hstep : ∀ s s', Inv s → body s = .ok (.inr s') → Inv s' ∧ measure s' < measure s :=
    fun s s' hs h => (hbody s hs).2 _ h
  have hinv : ∀ s', Reaches body s s' → Inv s' := fun s' =>
    Reaches.inv Inv (fun s s' hs h => (hstep s s' hs h).1) hs
  constructor
  · intro hpanic
    obtain ⟨s', hreach, herr⟩ := (loop_eq_error_iff Inv measure hstep hs hfuel _).mp hpanic
    exact (hbody s' (hinv s' hreach)).1 herr
  · intro result hresult
    obtain ⟨s', hreach, hend⟩ := exists_of_loop_eq_ok hresult
    exact (hbody s' (hinv s' hreach)).2 _ hend

end V2RootCore.Go
