import V2RootCore.Buf.Reader

/-!
# A reader returns its stream, however it is cut

The bytes still to come are the content of a reader. Every operation is described by what it takes
from the front of the content; where the cuts between multi-buffers are does not show.
-/

namespace V2RootCore.Buf

open Go

variable {ρ : Type}

namespace MultiBuffer

variable (mb : MultiBuffer ρ)

@[simp]
theorem bytes_nil : bytes ([] : MultiBuffer ρ) = [] := rfl

@[simp]
theorem bytes_cons (b : Buffer ρ) (mb : MultiBuffer ρ) : bytes (b :: mb) = b.bytes ++ bytes mb := rfl

theorem bytes_append (mb mb' : MultiBuffer ρ) : bytes (mb ++ mb') = bytes mb ++ bytes mb' :=
  List.flatMap_append

theorem isEmpty_iff : mb.isEmpty = true ↔ mb.bytes = [] := by
  simp [isEmpty, bytes, Buffer.len]

theorem isEmpty_eq_false_iff : mb.isEmpty = false ↔ mb.bytes ≠ [] := by
  rw [← Bool.not_eq_true, ne_eq, isEmpty_iff]

theorem splitBytes_spec (n : Nat) :
    (mb.splitBytes n).2 = mb.bytes.take n ∧ (mb.splitBytes n).1.bytes = mb.bytes.drop n := by
  induction mb generalizing n with
  | nil => simp [splitBytes]
  | cons b rest ih =>
      by_cases hlen : b.len ≤ n
      · simp only [splitBytes, hlen, if_true, ih, bytes_cons]
        rw [List.take_append, List.take_of_length_le hlen, List.drop_append, List.drop_eq_nil_of_le hlen]
        exact ⟨rfl, rfl⟩
      · have hle : n ≤ b.bytes.length := (not_le.mp hlen).le
        simp [splitBytes, hlen, List.take_append_of_le_length hle, List.drop_append_of_le_length hle]

theorem splitBytes_length (n : Nat) :
    (mb.splitBytes n).1.length ≤ mb.length := by
  induction mb generalizing n with
  | nil => simp [splitBytes]
  | cons b rest ih =>
      by_cases hlen : b.len ≤ n
      · simp only [splitBytes, hlen, if_true]
        exact (ih _).trans (Nat.le_succ _)
      · simp [splitBytes, hlen]

theorem splitWhole_spec (room : Nat) (mb : MultiBuffer ρ) :
    (splitWhole room mb).2 ++ (splitWhole room mb).1 = mb ∧ (splitWhole room mb).2.len ≤ room := by
  induction mb generalizing room with
  | nil => simp [splitWhole, len]
  | cons b rest ih =>
      by_cases hroom : room < b.len
      · simp [splitWhole, hroom, len]
      · obtain ⟨happend, hlen⟩ := ih (room - b.len)
        simp only [splitWhole, hroom, if_false, List.cons_append, happend, true_and]
        simp only [len, Buffer.len, bytes_cons, List.length_append] at hlen hroom ⊢
        omega

theorem splitSize_spec (n : Nat) (hmb : mb ≠ []) (hpos : 0 < n) (hn : n ≤ size) :
    ∃ left taken, mb.splitSize n = .ok (left, taken) ∧ taken.bytes ++ left.bytes = mb.bytes ∧
      taken.len ≤ n ∧ left.length + left.len < mb.length + mb.len := by
  cases mb with
  | nil => exact absurd rfl hmb
  | cons b rest =>
      by_cases hlen : n < b.len
      · refine ⟨{ b with bytes := b.bytes.drop n } :: rest, [{ bytes := b.bytes.take n }],
          by simp [splitSize, hlen, not_lt.mpr hn], ?_, by simp [len], ?_⟩
        · simp [← List.append_assoc]
        · simp only [len, Buffer.len, bytes_cons, List.length_append, List.length_cons,
            List.length_drop] at hlen ⊢
          omega
      · obtain ⟨happend, htaken⟩ := splitWhole_spec n (b :: rest)
        have hwhole : (splitWhole n (b :: rest)).2 = b :: (splitWhole (n - b.len) rest).2 := by
          simp [splitWhole, hlen]
        refine ⟨(splitWhole n (b :: rest)).1, (splitWhole n (b :: rest)).2,
          by simp only [splitSize, hlen, if_false], ?_, htaken, ?_⟩
        · rw [← bytes_append, happend]
        · have hlength := congrArg List.length happend
          have hbytes := congrArg len happend
          simp only [hwhole, List.cons_append, List.length_cons, List.length_append] at hlength
          simp only [len, bytes, List.flatMap_append, List.length_append] at hbytes ⊢
          simp only [List.length_cons]
          omega

end MultiBuffer

namespace BufferedReader

variable (r : BufferedReader ρ)

/-- All bytes that are still to come. -/
def content (r : BufferedReader ρ) : Bytes := r.buffer.bytes ++ r.reader.flatMap MultiBuffer.bytes

@[simp]
theorem setBuffer_content (mb : MultiBuffer ρ) :
    (r.setBuffer mb).content = mb.bytes ++ r.reader.flatMap MultiBuffer.bytes := by
  by_cases hmb : mb.isEmpty
  · simp [setBuffer, content, hmb, (MultiBuffer.isEmpty_iff mb).mp hmb]
  · simp [setBuffer, content, hmb]

@[simp]
theorem setBuffer_reader (mb : MultiBuffer ρ) :
    (r.setBuffer mb).reader = r.reader := rfl

theorem setBuffer_weight_le (mb : MultiBuffer ρ) :
    (r.setBuffer mb).weight ≤
      (r.reader.map fun mb => 1 + mb.length + mb.len).sum + mb.length + mb.len := by
  by_cases hmb : mb.isEmpty
  · simp [setBuffer, weight, hmb, MultiBuffer.len]
    omega
  · simp [setBuffer, weight, hmb]

theorem setBuffer_splitBytes (mb : MultiBuffer ρ) (n : Nat) :
    (mb.splitBytes n).2 ++ (r.setBuffer (mb.splitBytes n).1).content =
        mb.bytes ++ r.reader.flatMap MultiBuffer.bytes ∧
      (mb.splitBytes n).2.length = min n mb.len ∧
      (r.setBuffer (mb.splitBytes n).1).weight ≤
        (r.reader.map fun mb => 1 + mb.length + mb.len).sum + mb.length + mb.len := by
  obtain ⟨hcopied, hleft⟩ := mb.splitBytes_spec n
  refine ⟨?_, ?_, (setBuffer_weight_le _ _).trans ?_⟩
  · rw [setBuffer_content, hcopied, hleft, ← List.append_assoc, List.take_append_drop]
  · rw [hcopied, List.length_take, MultiBuffer.len]
  · have := mb.splitBytes_length n
    simp only [MultiBuffer.len, hleft, List.length_drop]
    omega

theorem read_cases (n : Nat) :
    (r.read n = (.error .eof, r) ∧ r.content = []) ∨
    ∃ copied r', r.read n = (.ok copied, r') ∧ copied ++ r'.content = r.content ∧
      copied.length ≤ n ∧ r'.weight ≤ r.weight ∧
      (0 < n → n - copied.length + r'.reader.length < n + r.reader.length) := by
  by_cases hbuffer : r.buffer.isEmpty
  · have hnil := (MultiBuffer.isEmpty_iff _).mp hbuffer
    cases hreader : r.reader with
    | nil => exact Or.inl ⟨by simp [read, hbuffer, hreader], by simp [content, hnil, hreader]⟩
    | cons mb reader =>
        obtain ⟨hcontent, hlength, hweight⟩ := setBuffer_splitBytes { r with reader } mb n
        refine Or.inr ⟨_, _, by simp only [read, hbuffer, hreader, if_true], hcontent.trans ?_, ?_,
          hweight.trans ?_, ?_⟩
        · simp [content, hnil, hreader]
        · omega
        · simp only [weight, hreader, List.map_cons, List.sum_cons]
          omega
        · intro _
          simp only [setBuffer_reader, List.length_cons]
          omega
  · have hlen : 0 < r.buffer.len :=
      List.length_pos_iff.mpr fun h => hbuffer ((MultiBuffer.isEmpty_iff _).mpr h)
    obtain ⟨hcontent, hlength, hweight⟩ := r.setBuffer_splitBytes r.buffer n
    refine Or.inr ⟨_, _, by simp [read, hbuffer], hcontent, ?_, hweight.trans_eq ?_, ?_⟩
    · omega
    · rw [weight]
    · intro hpos
      rw [setBuffer_reader]
      omega

theorem readLoop_append (first rest : Bytes) (fuel : Nat) (r : BufferedReader ρ) (buf : Bytes)
    (hfuel : first.length + r.reader.length < fuel) (hcontent : r.content = first ++ rest) :
    ∃ r', readLoop fuel r first.length buf = (.ok (buf ++ first), r') ∧ r'.content = rest ∧
      r'.weight ≤ r.weight := by
  induction fuel generalizing r first buf with
  | zero => omega
  | succ fuel ih =>
      by_cases hzero : first = []
      · exact ⟨r, by simp [readLoop, hzero], by simp [hcontent, hzero], le_rfl⟩
      · have hpos : 0 < first.length := List.length_pos_iff.mpr hzero
        obtain ⟨-, hnil⟩ | ⟨copied, r', hread, happend, hlen, hweight, hprogress⟩ :=
          r.read_cases first.length
        · simp [hnil, hzero] at hcontent
        · -- What was copied is a part of the bytes asked for.
          obtain ⟨more, rfl⟩ : copied <+: first := by
            refine List.prefix_of_prefix_length_le ⟨r'.content, happend⟩ ?_ hlen
            exact ⟨rest, hcontent.symm⟩
          have hrest : r'.content = more ++ rest := by
            rw [hcontent, List.append_assoc] at happend
            exact List.append_cancel_left happend
          have hprogress := hprogress hpos
          simp only [List.length_append, Nat.add_sub_cancel_left] at hprogress hfuel
          obtain ⟨r'', hloop, hcontent', hweight'⟩ :=
            ih more r' (buf ++ copied) (by omega) hrest
          refine ⟨r'', ?_, hcontent', hweight'.trans hweight⟩
          simp only [readLoop, hpos.ne', if_false, hread]
          simpa [List.append_assoc] using hloop

/-- **`io.ReadFull` takes the bytes asked for, from any cut of the stream.** -/
theorem readFull_append {r : BufferedReader ρ} {first rest : Bytes}
    (hcontent : r.content = first ++ rest) :
    ∃ r', r.readFull first.length = (.ok first, r') ∧ r'.content = rest ∧ r'.weight ≤ r.weight := by
  simpa [readFull] using readLoop_append first rest _ r [] (Nat.lt_succ_self _) hcontent

theorem readLoop_eof (n fuel : Nat) (r : BufferedReader ρ) (hpos : 0 < n)
    (hfuel : n + r.reader.length < fuel) (hcontent : r.content = []) :
    ∃ r', readLoop fuel r n [] = (.error .eof, r') ∧ r'.content = [] := by
  induction fuel generalizing r with
  | zero => omega
  | succ fuel ih =>
      obtain ⟨hread, -⟩ | ⟨copied, r', hread, happend, -, -, hprogress⟩ := r.read_cases n
      · exact ⟨r, by simp [readLoop, hpos.ne', hread], hcontent⟩
      · rw [hcontent, List.append_eq_nil_iff] at happend
        obtain ⟨rfl, hrest⟩ := happend
        have hprogress := hprogress hpos
        obtain ⟨r'', hloop, hcontent'⟩ := ih r' (by simp at hprogress; omega) hrest
        exact ⟨r'', by simpa [readLoop, hpos.ne', hread] using hloop, hcontent'⟩

theorem readFull_eof {r : BufferedReader ρ} {n : Nat} (hpos : 0 < n) (hcontent : r.content = []) :
    ∃ r', r.readFull n = (.error .eof, r') ∧ r'.content = [] :=
  readLoop_eof n _ r hpos (Nat.lt_succ_self _) hcontent

theorem splitBuffer_spec (n : Nat) (hbuffer : r.buffer ≠ []) (hpos : 0 < n) (hn : n ≤ size) :
    ∃ mb r', r.splitBuffer n = (.ok mb, r') ∧ mb.bytes ++ r'.content = r.content ∧ mb.len ≤ n ∧
      r'.weight < r.weight := by
  obtain ⟨left, taken, hsplit, hbytes, hlen, hless⟩ :=
    r.buffer.splitSize_spec n hbuffer hpos hn
  refine ⟨taken, r.setBuffer left, by simp [splitBuffer, hsplit], ?_, hlen, ?_⟩
  · rw [setBuffer_content, content, ← hbytes, List.append_assoc]
  · refine (setBuffer_weight_le _ _).trans_lt ?_
    rw [weight]
    omega

theorem readAtMost_spec (n : Nat) (hcontent : r.content ≠ []) (hpos : 0 < n) (hn : n ≤ size) :
    ∃ mb r', r.readAtMost n = (.ok mb, r') ∧ mb.bytes ++ r'.content = r.content ∧ mb.len ≤ n ∧
      r'.weight < r.weight := by
  by_cases hbuffer : r.buffer.isEmpty
  · have hnil := (MultiBuffer.isEmpty_iff _).mp hbuffer
    cases hreader : r.reader with
    | nil => simp [content, hnil, hreader] at hcontent
    | cons mb reader =>
        have hread : r.readAtMost n = splitBuffer { reader, buffer := mb } n := by
          simp [readAtMost, hbuffer, hreader]
        have hcontent' : BufferedReader.content { reader, buffer := mb } = r.content := by
          simp [content, hnil, hreader]
        have hweight : BufferedReader.weight { reader, buffer := mb } < r.weight := by
          simp only [weight, hreader, List.map_cons, List.sum_cons]
          omega
        rw [hread, ← hcontent']
        cases mb with
        | nil =>
            refine ⟨[], BufferedReader.setBuffer { reader } [], rfl, ?_, by simp [MultiBuffer.len], ?_⟩
            · rw [setBuffer_content]
              simp [content]
            · refine lt_of_le_of_lt (setBuffer_weight_le _ _) ?_
              simpa [weight] using hweight
        | cons b rest =>
            obtain ⟨taken, r', hsplit, happend, hlen, hless⟩ :=
              splitBuffer_spec ⟨reader, b :: rest⟩ n (by simp) hpos hn
            exact ⟨taken, r', hsplit, happend, hlen, hless.trans hweight⟩
  · have hne : r.buffer ≠ [] := by
      intro h
      simp [h, MultiBuffer.isEmpty] at hbuffer
    simpa [readAtMost, hbuffer] using splitBuffer_spec r n hne hpos hn

end BufferedReader

end V2RootCore.Buf
