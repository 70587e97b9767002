import V2RootCore.Proof.Go.Bufio
import V2RootCore.Proof.Go.Slices
import V2RootCore.Http.Response

/-!
# Which responses make the HTTP proxy panic

The status is looked for up to the first CRLF, and the header is read up to an LF. A first line of less than
four bytes is too short for the end of a header.
-/

namespace V2RootCore.Http

open Go Bufio

variable {s : Bytes × Bufio}

def InBuffer (r : Bufio) : Prop := r.buffered.length ≤ r.size

theorem headerLine_cases (hs : InBuffer s.2) :
    (∃ line r, InBuffer r ∧ r.size = s.2.size ∧ 10 ∈ s.2.stream.take s.2.size ∧
      s.2.stream = line ++ r.stream ∧ line = s.2.stream.takeWhile (· ≠ 10) ++ [10] ∧
      headerLine s = (sliceFrom (s.1 ++ line) ((s.1 ++ line).length - 4) >>= fun tail =>
        if tail = ascii "\r\n\r\n" then .ok (.inl (s.1 ++ line, r))
        else if 1024 < (s.1 ++ line).length then .error errTooBig
        else .ok (.inr (s.1 ++ line, r)))) ∨
    (10 ∉ s.2.stream.take s.2.size ∧ ∃ err, headerLine s = .error (errReading err)) := by
  obtain ⟨hline, hnone⟩ := @readSliceLoop_spec s.2 10 (s.2.size + 1) hs
    (Nat.lt_add_left _ (Nat.lt_succ_self _))
  by_cases hmem : 10 ∈ s.2.stream.take s.2.size
  · obtain ⟨r, hsize, hr, hstream, hread⟩ := hline hmem
    refine .inl ⟨_, r, hr, hsize, hmem, hstream, rfl, ?_⟩
    rw [headerLine, readSlice, hread]
  · obtain ⟨r, hread | hread⟩ := hnone hmem
    · refine .inr ⟨hmem, s.2.source.err, ?_⟩
      rw [headerLine, readSlice, hread]
    · refine .inr ⟨hmem, errBufferFull, ?_⟩
      rw [headerLine, readSlice, hread]

theorem headerLine_next (hs : InBuffer s.2) {s' : Bytes × Bufio} (h : headerLine s = .ok (.inr s')) :
    InBuffer s'.2 ∧ 1025 - s'.1.length < 1025 - s.1.length ∧ 4 ≤ s'.1.length := by
  obtain ⟨line, r, hr, -, -, -, hline, heq⟩ | ⟨-, err, heq⟩ := headerLine_cases hs
  · obtain ⟨tail, hslice, hrest⟩ := bind_eq_ok.mp (heq.symm.trans h)
    have hlow := (slice_eq_ok hslice).1
    have hlength : line.length = (s.2.stream.takeWhile (· ≠ 10)).length + 1 := by
      rw [hline, List.length_append, List.length_singleton]
    have hall : (s.1 ++ line).length = s.1.length + line.length := List.length_append
    split_ifs at hrest with hend hbig
    · cases hrest
    · obtain rfl := Sum.inr.inj (Except.ok.inj hrest)
      exact ⟨hr, by dsimp only; omega, by dsimp only; omega⟩
  · exact nomatch heq.symm.trans h

theorem headerLine_panics_iff (hs : InBuffer s.2) : headerLine s = .error .panicked ↔
    10 ∈ s.2.stream.take s.2.size ∧ s.1.length + (s.2.stream.takeWhile (· ≠ 10)).length < 3 := by
  obtain ⟨line, r, hr, -, hmem, -, hline, heq⟩ | ⟨hmem, err, heq⟩ := headerLine_cases hs
  · have hlength : (s.1 ++ line).length = s.1.length + (s.2.stream.takeWhile (· ≠ 10)).length + 1 := by
      rw [hline, List.length_append, List.length_append, List.length_singleton]
      ring
    rw [heq]
    generalize s.1 ++ line = header at hlength ⊢
    by_cases hshort : header.length < 4
    · rw [sliceFrom, slice, if_neg (by omega)]
      exact iff_of_true rfl ⟨hmem, by omega⟩
    · refine iff_of_false ?_ fun h => by omega
      refine ((safe_sliceFrom (by omega) (by omega)).bind fun tail _ => ?_ : Safe _ fun _ => True).1
      refine .ite (fun _ => .ok trivial) fun _ => .ite (fun _ => .error fun hpanic => ?_) fun _ => .ok trivial
      cases hpanic
  · rw [heq]
    refine iff_of_false (fun hpanic => ?_) fun h => hmem h.1
    cases hpanic

/-- **A 1xx response** makes the code panic exactly if its first line is too short. -/
theorem loop_headerLine_iff {r : Bufio} (hr : InBuffer r) :
    loop .panicked headerLine 1026 ([], r) = .error .panicked ↔
      10 ∈ r.stream.take r.size ∧ (r.stream.takeWhile (· ≠ 10)).length < 3 := by
  have hstep : ∀ s s', InBuffer s.2 → headerLine s = .ok (.inr s') →
      InBuffer s'.2 ∧ 1025 - s'.1.length < 1025 - s.1.length := by
    intro s s' hs h
    obtain ⟨hin, hless, -⟩ := headerLine_next hs h
    exact ⟨hin, hless⟩
  rw [loop_eq_error_iff (fun s => InBuffer s.2) (fun s => 1025 - s.1.length) hstep hr (by simp)]
  constructor
  · rintro ⟨s, hreach, hpanic⟩
    have hs : InBuffer s.2 :=
      Reaches.inv (fun s => InBuffer s.2) (fun s s' hs h => (hstep s s' hs h).1) hr hreach
    have hshort := (headerLine_panics_iff hs).mp hpanic
    obtain rfl | ⟨s', hreach', hlast⟩ := hreach.cases_tail
    · simpa using hshort
    · have hs' : InBuffer s'.2 :=
        Reaches.inv (fun s => InBuffer s.2) (fun s s' hs h => (hstep s s' hs h).1) hr hreach'
      have hfour := (headerLine_next hs' hlast).2.2
      omega
  · exact fun hshort => ⟨_, .refl, (headerLine_panics_iff hr).mpr (by simpa using hshort)⟩

/-- The first look at a response. -/
theorem exists_peek (source : Source) :
    ∃ r, InBuffer r ∧ r.size = 8192 ∧ r.stream = source.bytes ∧
      (newReaderSize source Buf.size).peek 56 =
        (if 56 ≤ source.bytes.length then (source.bytes.take 56, none)
          else (source.bytes, some source.err), r) := by
  have hsize : (newReaderSize source Buf.size).size = 8192 := rfl
  obtain ⟨r, hfills, hpeek⟩ := @peek_spec (newReaderSize source Buf.size) 56 (by omega)
  refine ⟨r, ?_, hfills.size, hfills.stream, hpeek⟩
  rw [InBuffer, hfills.size]
  exact hfills.room (Nat.zero_le _)

/-- **Which streams crash the proxy.** For all bytes that an origin may send and all pieces they may come
in, the code does not panic before it hands the rest to `http.ReadResponse`, except if there are 56 bytes,
their first line up to a CRLF has a status that starts with 1, and one of the first three bytes is an LF. -/
theorem readResponse_returns_iff (source : Source) :
    readResponseAndHandle100Continue (.newReaderSize source Buf.size) ≠ .error .panicked ↔
      ¬(56 ≤ source.bytes.length ∧ hasPrefix (statusOf (source.bytes.take 56)) (ascii "1") ∧
        10 ∈ source.bytes.take 3) := by
  obtain ⟨r, hr, hsize, hstream, hpeek⟩ := exists_peek source
  rw [readResponseAndHandle100Continue, hpeek]
  by_cases hlength : 56 ≤ source.bytes.length
  · rw [if_pos hlength]
    by_cases hstatus : hasPrefix (statusOf (source.bytes.take 56)) (ascii "1") = true
    · have hline : 10 ∈ source.bytes.take 3 ↔
          10 ∈ r.stream.take r.size ∧ (r.stream.takeWhile (· ≠ 10)).length < 3 := by
        rw [hstream, hsize, mem_take_iff, mem_take_iff]
        refine ⟨fun h => ⟨⟨h.1, by omega⟩, h.2⟩, fun h => ⟨h.1.1, h.2⟩⟩
      change (if _ then _ else _) ≠ _ ↔ _
      rw [if_pos ⟨.inl rfl, hstatus⟩, Ne, loop_headerLine_iff hr, ← hline]
      simp [hlength, hstatus]
    · change (if _ then _ else _) ≠ _ ↔ _
      rw [if_neg fun h => hstatus h.2]
      exact iff_of_true nofun fun h => hstatus h.2.1
  · have herr : some source.err ≠ some errBufferFull := fun h => source.err_ne (Option.some.inj h)
    rw [if_neg hlength]
    change (if _ then _ else _) ≠ _ ↔ _
    rw [if_neg fun h => h.1.elim nofun herr]
    exact iff_of_true nofun fun h => hlength h.1

/-- An LF, and then a status that starts with 1. -/
theorem readResponse_panics :
    readResponseAndHandle100Continue (.newReaderSize
      ⟨[ascii "\n 100 ", List.replicate 50 65], .eof, by decide, by decide⟩ Buf.size) =
        .error .panicked := by
  rfl

end V2RootCore.Http
