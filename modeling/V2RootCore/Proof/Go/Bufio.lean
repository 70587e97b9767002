import V2RootCore.Go.Bufio

/-!
# Fragmentation does not show

What `Peek` and `ReadSlice` return depends on the bytes of the stream and not on the pieces they come in.
-/

namespace V2RootCore.Go

theorem Source.read_spec (source : Source) (room : Nat) :
    (source.read room).1 ++ (source.read room).2.bytes = source.bytes ∧
      (source.read room).1.length ≤ room ∧ (source.read room).2.err = source.err ∧
      (source.pieces ≠ [] → 0 < room → 0 < (source.read room).1.length) := by
  rw [read]
  split
  · rename_i hpieces
    exact ⟨rfl, Nat.zero_le _, rfl, fun hne => absurd hpieces hne⟩
  · rename_i piece pieces hpieces
    have hne : piece ≠ [] := source.pieces_ne piece (hpieces ▸ List.mem_cons_self)
    have hpos := List.length_pos_iff.mpr hne
    refine ⟨?_, List.length_take_le _ _, rfl, fun _ hroom => ?_⟩
    · have hbytes : source.bytes = piece ++ pieces.flatten := by rw [bytes, hpieces, List.flatten_cons]
      rw [hbytes]
      change piece.take room ++
        (if room < piece.length then piece.drop room :: pieces else pieces).flatten = _
      split_ifs with hlt
      · rw [List.flatten_cons, ← List.append_assoc, List.take_append_drop]
      · rw [List.take_of_length_le (not_lt.mp hlt)]
    · rw [List.length_take]
      omega

namespace Bufio

structure Fills (r r' : Bufio) : Prop where
  stream : r'.stream = r.stream
  size : r'.size = r.size
  err : r'.source.err = r.source.err
  room : r.buffered.length ≤ r.size → r'.buffered.length ≤ r.size

variable {r : Bufio}

theorem Fills.refl (r : Bufio) : Fills r r := ⟨rfl, rfl, rfl, id⟩

theorem Fills.trans {r₁ r₂ r₃ : Bufio} (h : Fills r₁ r₂) (h' : Fills r₂ r₃) : Fills r₁ r₃ :=
  ⟨h'.stream.trans h.stream, h'.size.trans h.size, h'.err.trans h.err, fun hroom =>
    h.size ▸ h'.room (h.size.symm ▸ h.room hroom)⟩

theorem fill_spec (r : Bufio) : Fills r r.fill ∧
    (r.source.pieces ≠ [] → r.buffered.length < r.size → r.buffered.length < r.fill.buffered.length) := by
  obtain ⟨hbytes, hle, herr, hpos⟩ := r.source.read_spec (r.size - r.buffered.length)
  have hlength : r.fill.buffered.length = r.buffered.length +
      (r.source.read (r.size - r.buffered.length)).1.length := List.length_append
  refine ⟨⟨?_, rfl, herr, fun hroom => by omega⟩, fun hne hlt => ?_⟩
  · rw [stream, stream, ← hbytes, ← List.append_assoc]
    rfl
  · have hread := hpos hne (by omega)
    omega

theorem fillTo_spec {n fuel : Nat} (hfuel : n ≤ r.buffered.length + fuel) :
    Fills r (fillTo n fuel r) ∧ (n ≤ (fillTo n fuel r).buffered.length ∨
      r.size ≤ (fillTo n fuel r).buffered.length ∨ (fillTo n fuel r).source.pieces = []) := by
  induction fuel generalizing r with
  | zero => exact ⟨.refl r, .inl hfuel⟩
  | succ fuel ih =>
      rw [fillTo]
      split_ifs with hmore
      · obtain ⟨hfills, hgrows⟩ := r.fill_spec
        have hlt := hgrows hmore.2.2 hmore.2.1
        obtain ⟨hrest, hend⟩ := ih (show n ≤ r.fill.buffered.length + fuel by omega)
        exact ⟨hfills.trans hrest, hfills.size ▸ hend⟩
      · refine ⟨.refl r, ?_⟩
        by_contra hnot
        push Not at hnot
        exact hmore ⟨hnot.1, hnot.2.1, hnot.2.2⟩

theorem stream_of_nil (hpieces : r.source.pieces = []) : r.stream = r.buffered := by
  rw [stream, Source.bytes, hpieces, List.flatten_nil, List.append_nil]

/-- **`Peek`** of no more than the size of the buffer. -/
theorem peek_spec {n : Nat} (hn : n ≤ r.size) : ∃ r', Fills r r' ∧
    r.peek n = (if n ≤ r.stream.length then (r.stream.take n, none)
      else (r.stream, some r.source.err), r') := by
  obtain ⟨hfills, hend⟩ := fillTo_spec (r := r) (show n ≤ r.buffered.length + n by omega)
  refine ⟨_, hfills, ?_⟩
  rw [peek]
  generalize fillTo n n r = r' at hfills hend ⊢
  rw [hfills.size, if_neg (by omega), hfills.err, ← hfills.stream]
  have hstream : r'.stream.length = r'.buffered.length + r'.source.bytes.length := List.length_append
  split_ifs with hshort hle hle
  · have hpieces : r'.source.pieces = [] := by
      obtain hend | hend | hend := hend
      · omega
      · omega
      · exact hend
    rw [stream_of_nil hpieces] at hle
    omega
  · have hpieces : r'.source.pieces = [] := by
      obtain hend | hend | hend := hend
      · omega
      · omega
      · exact hend
    rw [stream_of_nil hpieces]
  · rw [stream, List.take_append_of_le_length (not_lt.mp hshort)]
  · omega

theorem mem_take_iff {delim : UInt8} {bytes : Bytes} {n : Nat} :
    delim ∈ bytes.take n ↔ delim ∈ bytes ∧ (bytes.takeWhile (· ≠ delim)).length < n := by
  induction bytes generalizing n with
  | nil => simp
  | cons x bytes ih =>
      cases n with
      | zero => simp
      | succ n =>
          by_cases hx : x = delim
          · simp [hx]
          · simp [hx, ih, Ne.symm hx]

theorem takeWhile_append_drop {delim : UInt8} {bytes : Bytes} (h : delim ∈ bytes) :
    bytes.takeWhile (· ≠ delim) ++ [delim] ++
      bytes.drop (bytes.takeWhile (· ≠ delim) ++ [delim]).length = bytes := by
  induction bytes with
  | nil => cases h
  | cons x bytes ih =>
      by_cases hx : x = delim
      · simp [hx]
      · have hrest := ih ((List.mem_cons.mp h).resolve_left (Ne.symm hx))
        simpa [hx] using hrest

/-- **`ReadSlice`**: a line that fits into the buffer, or an error of the reader or of `bufio`. -/
theorem readSliceLoop_spec {delim : UInt8} {fuel : Nat} (hroom : r.buffered.length ≤ r.size)
    (hfuel : r.size < r.buffered.length + fuel) :
    (delim ∈ r.stream.take r.size → ∃ r', r'.size = r.size ∧ r'.buffered.length ≤ r'.size ∧
      r.stream = r.stream.takeWhile (· ≠ delim) ++ [delim] ++ r'.stream ∧
      readSliceLoop delim fuel r = (.ok (r.stream.takeWhile (· ≠ delim) ++ [delim]), r')) ∧
    (delim ∉ r.stream.take r.size → ∃ r',
      readSliceLoop delim fuel r = (.error r.source.err, r') ∨
        readSliceLoop delim fuel r = (.error errBufferFull, r')) := by
  induction fuel generalizing r with
  | zero => omega
  | succ fuel ih =>
      rw [readSliceLoop]
      have htake : ∀ x ∈ r.buffered, x ∈ r.stream.take r.size := by
        intro x hx
        rw [stream, List.take_append, List.take_of_length_le hroom]
        exact List.mem_append_left _ hx
      split_ifs with hmem hpieces hfull
      · have hline : r.stream.takeWhile (· ≠ delim) = r.buffered.takeWhile (· ≠ delim) := by
          have hlength := (mem_take_iff (n := r.buffered.length)).mp (by rwa [List.take_length])
          rw [stream, List.takeWhile_append, if_neg hlength.2.ne]
        rw [hline]
        refine ⟨fun _ => ⟨_, ?_, ?_, ?_, rfl⟩, fun hnot => absurd (htake delim hmem) hnot⟩
        · rfl
        · change (r.buffered.drop _).length ≤ r.size
          rw [List.length_drop]
          exact (Nat.sub_le _ _).trans hroom
        · change r.buffered ++ r.source.bytes = _ ++ (r.buffered.drop _ ++ r.source.bytes)
          rw [← List.append_assoc, takeWhile_append_drop hmem]
      · refine ⟨fun h => absurd (List.mem_of_mem_take h) ?_, fun _ => ⟨_, .inl rfl⟩⟩
        rwa [stream_of_nil hpieces]
      · refine ⟨fun h => absurd h ?_, fun _ => ⟨_, .inr rfl⟩⟩
        rwa [stream, List.take_left' (le_antisymm hroom hfull)]
      · obtain ⟨hfills, hgrows⟩ := r.fill_spec
        have hlt := hgrows hpieces (not_le.mp hfull)
        have hrest := ih (r := r.fill) (hfills.room hroom) (show r.size < _ by omega)
        rwa [hfills.stream, hfills.size, hfills.err] at hrest

end Bufio

end V2RootCore.Go
