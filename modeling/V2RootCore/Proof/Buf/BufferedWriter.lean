import V2RootCore.Proof.Buf.Reader
import V2RootCore.Proof.Go.Slices
import V2RootCore.Buf.BufferedWriter
import V2RootCore.Transition

/-!
# What a buffered writer loses

`Write` stops with an error at the end of its buffer, so that a longer slice is not written. If every
slice has room, what was received and what is in the buffer are all the bytes that were given, in order.
-/

namespace V2RootCore.Buf

open Go Transition

variable {ρ : Type}

namespace BufferedWriter

variable {w : BufferedWriter}

/-- The buffer is never full between two calls, and it is empty if it is not used. -/
structure Holds (w : BufferedWriter) (given : Bytes) : Prop where
  bytes : w.received ++ w.held = given
  room : w.held.length < size
  unused : w.buffered = false → w.held = []

/-- A slice goes directly to the writer or has room in the buffer. -/
def Fits (w : BufferedWriter) (b : Bytes) : Prop :=
  (w.buffered = false ∧ w.isBytesWriter) ∨ w.held.length + b.length ≤ size

theorem held_append (w : BufferedWriter) (data : Bytes) : (w.append data).held = w.held ++ data := rfl

theorem held_flushInternal (w : BufferedWriter) : w.flushInternal.held = [] := by
  rw [flushInternal]
  split_ifs with hnil
  · exact hnil
  · rfl

theorem received_flushInternal (w : BufferedWriter) : w.flushInternal.received = w.received ++ w.held := by
  rw [flushInternal]
  split_ifs with hnil
  · rw [hnil, List.append_nil]
  · rfl

theorem buffered_flushInternal (w : BufferedWriter) : w.flushInternal.buffered = w.buffered := by
  rw [flushInternal]
  split_ifs
  · rfl
  · rfl

variable {given b : Bytes}

theorem holds_flushInternal (hgiven : w.received ++ w.held = given) :
    w.flushInternal.Holds given := by
  have hheld := w.held_flushInternal
  refine ⟨?_, ?_, fun _ => hheld⟩
  · rw [hheld, List.append_nil, received_flushInternal, hgiven]
  · rw [hheld]
    decide

variable (h : w.Holds given)

include h

/-- A buffer that may have become full, and is then flushed. -/
theorem holds_append (data : Bytes) (hroom : w.held.length + data.length ≤ size) {c : Prop}
    [Decidable c] (hfull : (w.append data).held.length = size → c)
    (hunused : w.buffered = false → c) :
    (if c then (w.append data).flushInternal else w.append data).Holds (given ++ data) := by
  have hbytes : (w.append data).received ++ (w.append data).held = given ++ data := by
    rw [held_append, ← h.bytes, List.append_assoc]
    rfl
  split_ifs with hc
  · exact holds_flushInternal hbytes
  · refine ⟨hbytes, ?_, fun hbuffered => absurd (hunused hbuffered) hc⟩
    have hne : (w.append data).held.length ≠ size := fun hfull' => hc (hfull hfull')
    rw [held_append, List.length_append] at hne ⊢
    omega

theorem write_of_fits (hfits : w.Fits b) :
    (w.write b).1 = (b.length, none) ∧ (w.write b).2.Holds (given ++ b) := by
  rw [write]
  split_ifs with hnil hdirect
  · rw [hnil, List.append_nil]
    exact ⟨rfl, h⟩
  · have hbuffered : w.buffered = false := by simpa using hdirect.1
    have hheld := h.unused hbuffered
    refine ⟨rfl, ?_, h.room, h.unused⟩
    have hgiven := h.bytes
    rw [hheld, List.append_nil] at hgiven
    change w.received ++ b ++ w.held = _
    rw [hheld, List.append_nil, hgiven]
  · have hroom : w.held.length + b.length ≤ size := hfits.resolve_left fun hd => hdirect (by simpa using hd)
    have hmin : min (size - w.held.length) b.length = b.length := min_eq_right (by omega)
    have hpos := List.length_pos_iff.mpr hnil
    rw [writeLoop, if_neg hnil]
    dsimp only
    rw [hmin, if_neg (lt_irrefl _), List.take_length, List.drop_length, Nat.zero_add]
    obtain ⟨fuel, hfuel⟩ : ∃ fuel, b.length = fuel + 1 := ⟨b.length - 1, by omega⟩
    rw [hfuel, writeLoop, if_pos rfl, ← hfuel]
    refine ⟨rfl, holds_append h b hroom Or.inr fun hbuffered => Or.inl ?_⟩
    change ¬w.buffered = true
    rw [hbuffered]
    decide

theorem write_of_not_fits (hfits : ¬w.Fits b) :
    (w.write b).1.2 = some errBufferFull := by
  rw [Fits, not_or, not_le] at hfits
  have hroom := h.room
  have hnil : b ≠ [] := by
    rintro rfl
    exact absurd hfits.2 (by rw [List.length_nil]; omega)
  have hmin : min (size - w.held.length) b.length < b.length := min_lt_iff.mpr (.inl (by omega))
  rw [write, if_neg hnil, if_neg fun hdirect => hfits.1 (by simpa using hdirect), writeLoop, if_neg hnil]
  dsimp only
  rw [if_pos hmin]

theorem returns_write_iff :
    (w.write b).1 = (b.length, none) ↔ w.Fits b := by
  refine ⟨fun hreturns => ?_, fun hfits => (write_of_fits h hfits).1⟩
  by_contra hfits
  have herr := write_of_not_fits h hfits
  rw [hreturns] at herr
  cases herr

theorem fits_byte (c : UInt8) : w.Fits [c] := .inr h.room

theorem readLoop_spec (hbuffered : w.buffered = true) {fuel : Nat} (mb : MultiBuffer ρ)
    (hfuel : mb.len < fuel) :
    ∃ w', w.readLoop fuel mb = .ok w' ∧ w'.Holds (given ++ mb.bytes) := by
  induction fuel generalizing w given mb with
  | zero => exact absurd hfuel (Nat.not_lt_zero _)
  | succ fuel ih =>
      rw [readLoop]
      split_ifs with hempty
      · rw [(MultiBuffer.isEmpty_iff mb).mp hempty, List.append_nil]
        exact ⟨w, rfl, h⟩
      · have hne : mb.bytes ≠ [] := fun hnil => hempty ((MultiBuffer.isEmpty_iff mb).mpr hnil)
        have hpos := List.length_pos_iff.mpr hne
        obtain ⟨hcopied, hleft⟩ := mb.splitBytes_spec (size - w.held.length)
        generalize mb.splitBytes (size - w.held.length) = split at hcopied hleft
        obtain ⟨left, data⟩ := split
        dsimp only at hcopied hleft ⊢
        have hroom := h.room
        have hdata : data.length ≤ size - w.held.length := by
          rw [hcopied]
          exact List.length_take_le _ _
        have hnext := holds_append h data (by omega) (c := (w.append data).held.length = size) id
          fun hfalse => absurd (hbuffered.symm.trans hfalse) (by decide)
        have hbytes : given ++ data ++ left.bytes = given ++ mb.bytes := by
          rw [hcopied, hleft, List.append_assoc, List.take_append_drop]
        have hless : left.len < fuel := by
          rw [MultiBuffer.len, hleft, List.length_drop]
          rw [MultiBuffer.len] at hfuel
          omega
        have hstill : (if (w.append data).held.length = size then (w.append data).flushInternal
            else w.append data).buffered = true := by
          split_ifs
          · rw [buffered_flushInternal]
            exact hbuffered
          · exact hbuffered
        rw [← hbytes]
        exact ih hnext hstill left hless

theorem writeMultiBuffer_spec (mb : MultiBuffer ρ) :
    ∃ w', w.writeMultiBuffer mb = .ok w' ∧ w'.Holds (given ++ mb.bytes) := by
  rw [writeMultiBuffer]
  split_ifs with hempty hbuffered
  · rw [(MultiBuffer.isEmpty_iff mb).mp hempty, List.append_nil]
    exact ⟨w, rfl, h⟩
  · obtain ⟨w', hloop, hw'⟩ := readLoop_spec h hbuffered mb (show mb.len < mb.len + 2 by omega)
    rw [hloop, ok_bind]
    split_ifs
    · exact ⟨_, rfl, holds_flushInternal hw'.bytes⟩
    · exact ⟨w', rfl, hw'⟩
  · have hheld := h.unused (by simpa using hbuffered)
    refine ⟨_, rfl, ?_, h.room, h.unused⟩
    have hgiven := h.bytes
    rw [hheld, List.append_nil] at hgiven
    change w.received ++ mb.bytes ++ w.held = _
    rw [hheld, List.append_nil, hgiven]

end BufferedWriter

namespace WriterUse

open BufferedWriter

variable {u : WriterUse}

/-- What a call needs. -/
def Fits (u : WriterUse) : WriterCall ρ → Prop
  | .write b => u.writer.Fits b
  | _ => True

theorem returns_iff_fits (h : u.writer.Holds u.given) (call : WriterCall ρ) :
    u.Returns call ↔ u.Fits call := by
  cases call with
  | write b => exact returns_write_iff h
  | writeByte c =>
      refine iff_of_true ?_ trivial
      exact congrArg Prod.snd (write_of_fits h (fits_byte h c)).1
  | writeMultiBuffer b =>
      obtain ⟨w, hw, -⟩ := writeMultiBuffer_spec h b
      exact iff_of_true ⟨w, hw⟩ trivial
  | setBuffered f => exact Iff.rfl
  | setFlushNext => exact Iff.rfl
  | flush =>
      refine iff_of_true ?_ trivial
      change u.writer.flushInternal.received = u.given ++ []
      rw [received_flushInternal, h.bytes, List.append_nil]

theorem holds_step (h : u.writer.Holds u.given) {call : WriterCall ρ} (hfits : u.Fits call) :
    (u.step call).writer.Holds (u.step call).given := by
  cases call with
  | write b => exact (write_of_fits h hfits).2
  | writeByte c => exact (write_of_fits h (fits_byte h c)).2
  | writeMultiBuffer b =>
      obtain ⟨w, hw, hholds⟩ := writeMultiBuffer_spec h b
      have hwriter : (u.step (.writeMultiBuffer b)).writer = w := by rw [step, hw]
      rw [hwriter]
      exact hholds
  | setBuffered f =>
      change (u.writer.setBuffered f).Holds (u.given ++ [])
      rw [List.append_nil, setBuffered]
      split_ifs with hf
      · exact ⟨h.bytes, h.room, fun hfalse => absurd (hf.symm.trans hfalse) (by decide)⟩
      · exact holds_flushInternal h.bytes
  | setFlushNext =>
      change u.writer.setFlushNext.Holds (u.given ++ [])
      rw [List.append_nil]
      exact ⟨h.bytes, h.room, h.unused⟩
  | flush =>
      change u.writer.flushInternal.Holds (u.given ++ [])
      rw [List.append_nil]
      exact holds_flushInternal h.bytes

theorem holds_new (isBytesWriter : Bool) : ({ isBytesWriter } : BufferedWriter).Holds [] :=
  ⟨rfl, Nat.succ_pos _, nofun⟩

/-- **When nothing is lost.** In a sequence of calls, each of them returns without a panic or an error, each
`Write` its whole length, and after each `Flush` the underlying writer has received exactly the bytes given
so far, if and only if every slice for `Write` goes directly to the underlying writer or has room in the
buffer at that time. -/
theorem returns_iff_room (isBytesWriter : Bool) (calls : List (WriterCall ρ)) :
    Along step Returns { writer := { isBytesWriter } } calls ↔
      Along step Fits { writer := { isBytesWriter } } calls := by
  have hinv : ∀ (u : WriterUse) (call : WriterCall ρ), u.writer.Holds u.given → u.Returns call →
      (u.step call).writer.Holds (u.step call).given := fun u call h hreturns =>
    holds_step h ((returns_iff_fits h call).mp hreturns)
  exact along_iff_along hinv (fun u call h => returns_iff_fits h call) calls _ (holds_new isBytesWriter)

/-- A first slice that is longer than the buffer. -/
theorem write_too_long :
    ¬Along step Returns { writer := { isBytesWriter := true } }
      [(.write (List.replicate 8193 0) : WriterCall Unit)] := by
  rintro ⟨hreturns, -⟩
  obtain ⟨hfalse, -⟩ | hroom := (returns_write_iff (holds_new true)).mp hreturns
  · cases hfalse
  · rw [List.length_replicate] at hroom
    exact absurd hroom (by decide)

end WriterUse

end V2RootCore.Buf
