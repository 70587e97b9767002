import V2RootCore.Proof.Http.Response

/-!
# Interim responses

The proxy looks for a 1xx response once. It forwards the header of the first one, and a second one is
taken for the response itself.
-/

namespace V2RootCore.Http

open Go Bufio

/-- A response whose status starts with this digit. -/
def HasStatus (b : Bytes) (digit : UInt8) : Prop :=
  ∃ version rest, b = version ++ 32 :: digit :: rest ∧ version.length = 8 ∧
    32 ∉ version ∧ 13 ∉ version ∧ 10 ∉ version

/-- The header of a 1xx response. -/
structure Interim (block : Bytes) : Prop where
  status : HasStatus block 49
  short : block.length ≤ 1024
  ends : index block (ascii "\r\n\r\n") = some (block.length - 4)

structure Final (response : Bytes) : Prop where
  status : ∃ digit, 50 ≤ digit ∧ digit ≤ 57 ∧ HasStatus response digit
  long : 56 ≤ response.length

theorem Interim.suffix {block : Bytes} (h : Interim block) : ascii "\r\n\r\n" <:+ block := by
  have hstart := List.find?_some h.ends
  rw [hasPrefix, List.isPrefixOf_iff_prefix] at hstart
  have hall : ascii "\r\n\r\n" = block.drop (block.length - 4) := by
    refine hstart.eq_of_length_le ?_
    change (block.drop (block.length - 4)).length ≤ 4
    rw [List.length_drop]
    omega
  rw [hall]
  exact List.drop_suffix _ _

theorem Interim.eq_nil {block back : Bytes} (h : Interim block) (front : Bytes)
    (hblock : block = front ++ ascii "\r\n\r\n" ++ back) : back = [] := by
  have hfirst := (List.find?_range_eq_some.mp h.ends).2.2 front.length
  have hlength : block.length = front.length + 4 + back.length := by
    rw [hblock, List.length_append, List.length_append]
    rfl
  by_contra hne
  have hpos := List.length_pos_iff.mpr hne
  have hstart : hasPrefix (block.drop front.length) (ascii "\r\n\r\n") = true := by
    rw [hblock, List.append_assoc, List.drop_left]
    exact hasPrefix_append _ _
  rw [hstart] at hfirst
  exact absurd (hfirst (by omega)) (by decide)

theorem HasStatus.append {b : Bytes} {digit : UInt8} (h : HasStatus b digit) (more : Bytes) :
    HasStatus (b ++ more) digit := by
  obtain ⟨version, rest, rfl, hversion⟩ := h
  exact ⟨version, rest ++ more, by rw [List.append_assoc, List.cons_append, List.cons_append], hversion⟩

/-- A CRLF does not start among these bytes. -/
theorem length_le_of_index {front rest : Bytes} (hfront : 13 ∉ front) {i : Nat}
    (hindex : index (front ++ rest) (ascii "\r\n") = some i) : front.length ≤ i := by
  by_contra hlt
  push Not at hlt
  have hstart := List.find?_some hindex
  rw [hasPrefix, List.isPrefixOf_iff_prefix, List.drop_append_of_le_length hlt.le] at hstart
  obtain ⟨more, hmore⟩ := hstart
  refine hfront (List.mem_of_mem_drop (i := i) ?_)
  cases hdrop : front.drop i with
  | nil =>
      rw [List.drop_eq_nil_iff] at hdrop
      omega
  | cons x tail =>
      rw [hdrop] at hmore
      obtain rfl : 13 = x := (List.cons.inj hmore).1
      exact List.mem_cons_self

theorem statusOf_take {b : Bytes} {digit : UInt8} (h : HasStatus b digit) (hdigit : digit ≠ 13) :
    ∃ more, statusOf (b.take 56) = digit :: more := by
  obtain ⟨version, rest, rfl, hlength, hspace, hcr, -⟩ := h
  have htake : (version ++ 32 :: digit :: rest).take 56 = (version ++ [32, digit]) ++ rest.take 46 := by
    rw [List.take_append, List.take_of_length_le (by omega), hlength, List.append_assoc]
    rfl
  have hcut : ∀ line, (cut 32 ((version ++ [32, digit]) ++ line)).2 = digit :: line := by
    intro line
    rw [List.append_assoc]
    exact congrArg Prod.snd (cut_append hspace (digit :: line))
  have hfront : (13 : UInt8) ∉ version ++ [32, digit] := by
    simp only [List.mem_append, List.mem_cons, List.not_mem_nil, or_false]
    rintro (hmem | h32 | hdig)
    · exact hcr hmem
    · cases h32
    · exact hdigit hdig.symm
  rw [htake, statusOf]
  split
  · rename_i i hindex
    have hle := length_le_of_index hfront hindex
    rw [List.take_append, List.take_of_length_le hle]
    exact ⟨_, hcut _⟩
  · exact ⟨_, hcut _⟩

/-- What the loop has read of a header, and what is left of it. -/
structure Reading (block rest : Bytes) (s : Bytes × Bufio) (left : Bytes) : Prop where
  inBuffer : InBuffer s.2
  size : s.2.size = 8192
  block : s.1 ++ left = block
  stream : s.2.stream = left ++ rest
  left_ne : left ≠ []

section Loop

variable {block rest left : Bytes} {s : Bytes × Bufio}

theorem Interim.mem_left (h : Interim block) (hs : Reading block rest s left) : 10 ∈ left := by
  obtain ⟨front, hfront⟩ := h.suffix
  have hlast : block.getLast? = some 10 := by
    rw [← hfront, List.getLast?_append]
    rfl
  rw [← hs.block, List.getLast?_append_of_ne_nil _ hs.left_ne] at hlast
  exact List.mem_of_getLast? hlast

/-- The first line is not shorter than the end of a header. -/
theorem HasStatus.four_le {digit : UInt8} {front back : Bytes}
    (h : HasStatus (front ++ [10] ++ back) digit) : 4 ≤ (front ++ [10]).length := by
  obtain ⟨version, more, hblock, hlength, -, -, hlf⟩ := h
  by_contra hshort
  have hstart : front ++ [10] <+: version := by
    refine List.prefix_of_prefix_length_le (List.prefix_append _ back) ?_ (by omega)
    rw [hblock]
    exact List.prefix_append version _
  exact hlf (hstart.mem (List.mem_append_right _ List.mem_cons_self))

theorem Interim.next (h : Interim block) (hs : Reading block rest s left) :
    (∃ r, headerLine s = .ok (.inl (block, r)) ∧ r.stream = rest) ∨
      ∃ s' left', headerLine s = .ok (.inr s') ∧ Reading block rest s' left' ∧
        left'.length < left.length := by
  have hmem := h.mem_left hs
  have hcut := takeWhile_append_drop hmem
  have htake : s.2.stream.takeWhile (· ≠ 10) = left.takeWhile (· ≠ 10) := by
    have hlength := (mem_take_iff (n := left.length)).mp (by rwa [List.take_length])
    rw [hs.stream, List.takeWhile_append, if_neg hlength.2.ne]
  generalize hline : left.takeWhile (· ≠ 10) = front at hcut htake
  generalize left.drop (front ++ [10]).length = left' at hcut
  have hleft : left.length ≤ 1024 := by
    have hshort := h.short
    rw [← hs.block, List.length_append] at hshort
    omega
  have hparts : left.length = front.length + 1 + left'.length := by
    rw [← hcut, List.length_append, List.length_append, List.length_singleton]
  have hsmall : 10 ∈ s.2.stream.take s.2.size := by
    refine mem_take_iff.mpr ⟨?_, by rw [htake, hs.size]; omega⟩
    rw [hs.stream]
    exact List.mem_append_left rest hmem
  obtain ⟨line, r, hr, hsize, -, hstream, rfl, heq⟩ | ⟨hnot, -⟩ := headerLine_cases hs.inBuffer
  · rw [htake, ← List.append_assoc] at heq
    rw [htake, hs.stream, ← hcut, List.append_assoc] at hstream
    have hrest : r.stream = left' ++ rest := (List.append_cancel_left hstream).symm
    have hblock : s.1 ++ front ++ [10] ++ left' = block := by
      rw [← hs.block, ← hcut]
      simp only [List.append_assoc]
    have hfour := HasStatus.four_le (hblock ▸ h.status)
    have hshort : (s.1 ++ front ++ [10]).length + left'.length ≤ 1024 := by
      rw [← List.length_append, hblock]
      exact h.short
    generalize s.1 ++ front ++ [10] = header at heq hblock hfour hshort
    have hslice : sliceFrom header (header.length - 4) = .ok (header.drop (header.length - 4)) := by
      rw [sliceFrom, slice, if_pos (by omega), Int.toNat_natCast, List.take_length,
        show ((header.length : Int) - 4).toNat = header.length - 4 by omega]
    rw [hslice, ok_bind] at heq
    by_cases hend : header.drop (header.length - 4) = ascii "\r\n\r\n"
    · rw [if_pos hend] at heq
      have hback : left' = [] := by
        refine h.eq_nil (header.take (header.length - 4)) ?_
        rw [← hend, List.take_append_drop, hblock]
      rw [hback, List.append_nil] at hblock
      rw [hback, List.nil_append] at hrest
      exact .inl ⟨r, by rw [heq, hblock], hrest⟩
    · rw [if_neg hend, if_neg (by omega)] at heq
      refine .inr ⟨(header, r), left', heq, ⟨hr, hsize.trans hs.size, hblock, hrest, ?_⟩, by omega⟩
      rintro rfl
      rw [List.append_nil] at hblock
      obtain ⟨first, hfirst⟩ := h.suffix
      have hlength : header.length - 4 = first.length := by
        rw [hblock, ← hfirst, List.length_append]
        rfl
      exact hend (by rw [hlength, hblock, ← hfirst, List.drop_left])
  · exact absurd hsmall hnot

theorem Interim.forwarded (h : Interim block) (hs : Reading block rest s left) {fuel : Nat}
    (hfuel : left.length < fuel) :
    ∃ r, loop .panicked headerLine fuel s = .ok (block, r) ∧ r.stream = rest := by
  induction fuel generalizing s left with
  | zero => exact absurd hfuel (Nat.not_lt_zero _)
  | succ fuel ih =>
      rw [loop]
      obtain ⟨r, hline, hr⟩ | ⟨s', left', hline, hs', hless⟩ := h.next hs
      · rw [hline]
        exact ⟨r, rfl, hr⟩
      · rw [hline]
        exact ih hs' (by omega)

end Loop

theorem readResponse_of_status {source : Source} {digit : UInt8} (h : HasStatus source.bytes digit)
    (hdigit : digit ≠ 13) (hlong : 56 ≤ source.bytes.length) :
    ∃ r, InBuffer r ∧ r.size = 8192 ∧ r.stream = source.bytes ∧
      readResponseAndHandle100Continue (.newReaderSize source Buf.size) =
        if digit = 49 then loop .panicked headerLine 1026 ([], r) else .ok ([], r) := by
  obtain ⟨r, hr, hsize, hstream, hpeek⟩ := exists_peek source
  obtain ⟨more, hstatus⟩ := statusOf_take h hdigit
  refine ⟨r, hr, hsize, hstream, ?_⟩
  have hstart : hasPrefix (digit :: more) (ascii "1") ↔ digit = 49 := by
    rw [hasPrefix, List.isPrefixOf_iff_prefix]
    refine (List.cons_prefix_cons (b := digit) (a := 49)).trans ?_
    exact ⟨fun h => h.1.symm, fun h => ⟨h.symm, List.nil_prefix⟩⟩
  rw [readResponseAndHandle100Continue, hpeek, if_pos hlong]
  change (if _ ∧ hasPrefix (statusOf (source.bytes.take 56)) (ascii "1") = true then _ else _) = _
  rw [hstatus]
  exact if_congr ((and_iff_right (.inl rfl)).trans hstart) rfl rfl

/-- **How many interim responses are forwarded.** However the bytes are cut into pieces, all interim
responses are forwarded and the final one is left to be read exactly if there is at most one of them. -/
theorem forwards_interim_iff (interims : List Bytes) (final : Bytes) (source : Source)
    (hinterims : ∀ block ∈ interims, Interim block) (hfinal : Final final)
    (hsource : source.bytes = interims.flatten ++ final) :
    (∃ r, readResponseAndHandle100Continue (.newReaderSize source Buf.size) =
      .ok (interims.flatten, r) ∧ r.stream = final) ↔ interims.length ≤ 1 := by
  have hlong : 56 ≤ source.bytes.length := by
    rw [hsource, List.length_append]
    exact hfinal.long.trans (Nat.le_add_left _ _)
  cases interims with
  | nil =>
      obtain ⟨digit, hlow, -, hstatus⟩ := hfinal.status
      have hnot : ∀ other : UInt8, other < 50 → digit ≠ other := fun other hother heq =>
        absurd (hlow.trans_lt (heq ▸ hother)) (lt_irrefl 50)
      rw [List.flatten_nil, List.nil_append] at hsource
      obtain ⟨r, -, -, hstream, hread⟩ := readResponse_of_status (hsource ▸ hstatus)
        (hnot 13 (by decide)) hlong
      rw [if_neg (hnot 49 (by decide))] at hread
      exact iff_of_true ⟨r, hread, hstream.trans hsource⟩ (Nat.zero_le 1)
  | cons block interims =>
      have hblock := hinterims block List.mem_cons_self
      rw [List.flatten_cons, List.append_assoc] at hsource
      have hstatus : HasStatus source.bytes 49 := by
        rw [hsource]
        exact hblock.status.append _
      obtain ⟨r, hr, hsize, hstream, hread⟩ := readResponse_of_status hstatus (by decide) hlong
      rw [if_pos rfl] at hread
      have hne : block ≠ [] := by
        rintro rfl
        exact absurd hblock.suffix (by decide)
      have hshort := hblock.short
      have hstart : Reading block (interims.flatten ++ final) ([], r) block :=
        ⟨hr, hsize, rfl, hstream.trans hsource, hne⟩
      obtain ⟨r', hloop, hr'⟩ := hblock.forwarded hstart (show block.length < 1026 by omega)
      rw [hloop] at hread
      rw [hread, List.flatten_cons]
      constructor
      · rintro ⟨r'', heq, -⟩
        have hnil : interims.flatten = [] := by
          have hfirst := congrArg Prod.fst (Except.ok.inj heq)
          exact List.self_eq_append_right.mp hfirst
        cases interims with
        | nil => exact le_rfl
        | cons second interims =>
            have hsecond := (hinterims second (List.mem_cons_of_mem _ List.mem_cons_self)).suffix
            rw [List.flatten_cons, List.append_eq_nil_iff] at hnil
            rw [hnil.1] at hsecond
            exact absurd hsecond (by decide)
      · intro hone
        have hnil : interims = [] := by
          rw [List.length_cons] at hone
          exact List.eq_nil_of_length_eq_zero (by omega)
        rw [hnil, List.flatten_nil] at hr' ⊢
        exact ⟨r', by rw [List.append_nil], hr'⟩

theorem interim_continue : Interim (ascii "HTTP/1.1 100 Continue\r\n\r\n") :=
  ⟨⟨ascii "HTTP/1.1", ascii "00 Continue\r\n\r\n", by decide⟩, by decide, by decide⟩

theorem final_ok :
    Final (ascii "HTTP/1.1 200 OK\r\nServer: example.net\r\nContent-Length: 0\r\n\r\n") :=
  ⟨⟨50, by decide, by decide, ascii "HTTP/1.1",
    ascii "00 OK\r\nServer: example.net\r\nContent-Length: 0\r\n\r\n", by decide⟩, by decide⟩

theorem forwards_continue :
    (∃ r, readResponseAndHandle100Continue (.newReaderSize
      ⟨[ascii "HTTP/1.1 100 Continue\r\n\r\n",
        ascii "HTTP/1.1 200 OK\r\nServer: example.net\r\nContent-Length: 0\r\n\r\n"], .eof,
        by decide, by decide⟩ Buf.size) = .ok (ascii "HTTP/1.1 100 Continue\r\n\r\n", r) ∧
      r.stream = ascii "HTTP/1.1 200 OK\r\nServer: example.net\r\nContent-Length: 0\r\n\r\n") :=
  (forwards_interim_iff [ascii "HTTP/1.1 100 Continue\r\n\r\n"] _ _
    (List.forall_mem_singleton.mpr interim_continue) final_ok (by rfl)).mpr le_rfl

/-- Of two interim responses the second one is left as the response. -/
theorem forwards_first_of_two :
    Interim (ascii "HTTP/1.1 100 Continue\r\n\r\n") ∧
      (readResponseAndHandle100Continue (.newReaderSize
        ⟨[ascii "HTTP/1.1 100 Continue\r\n\r\nHTTP/1.1 100 Continue\r\n\r\n",
          ascii "HTTP/1.1 200 OK\r\nServer: example.net\r\nContent-Length: 0\r\n\r\n"], .eof,
          by decide, by decide⟩ Buf.size)).map (fun result => (result.1, result.2.stream)) =
        .ok (ascii "HTTP/1.1 100 Continue\r\n\r\n",
          ascii "HTTP/1.1 100 Continue\r\n\r\n" ++
            ascii "HTTP/1.1 200 OK\r\nServer: example.net\r\nContent-Length: 0\r\n\r\n") :=
  ⟨interim_continue, by decide +kernel⟩

end V2RootCore.Http
