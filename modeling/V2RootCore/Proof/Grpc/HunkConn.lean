import V2RootCore.Grpc.HunkConn

/-!
# Hunks are returned once as long as the reads are not mixed

What is left of the current hunk and the hunks to come are what a reader has not returned. `ReadMultiBuffer`
returns all of a hunk of a large capacity, even if `Read` has returned the front of it.
-/

namespace V2RootCore.Grpc

open Go Buf Transition

def stream (hunks : List Hunk) : Bytes := hunks.flatMap Hunk.data

namespace HunkReaderWriter

variable {h h' : HunkReaderWriter}

/-- What has not been returned. -/
def rest (h : HunkReaderWriter) : Bytes := h.buf.data.drop h.index ++ stream h.hunks

/-- No part of the hunk would be returned again by `ReadMultiBuffer`. -/
def Unread (h : HunkReaderWriter) : Prop :=
  h.done = true ∨ h.buf.cap < size ∨ h.index = 0 ∨ h.buf.data.length ≤ h.index

theorem fetch_cases (hfetch : h.fetch = .ok h') :
    (h.index < h.buf.data.length ∧ h' = h) ∨
      (h.buf.data.length ≤ h.index ∧ ∃ hunk hunks, h.hunks = hunk :: hunks ∧
        h' = { h with hunks, buf := hunk, index := 0 }) := by
  unfold fetch at hfetch
  split at hfetch
  · next hread =>
      refine .inr ⟨hread, ?_⟩
      unfold forceFetch at hfetch
      split at hfetch
      · next hunk hunks hhunks => exact ⟨hunk, hunks, hhunks, (Except.ok.inj hfetch).symm⟩
      · split at hfetch <;> cases hfetch
  · next hmore => exact .inl ⟨Nat.lt_of_not_le hmore, (Except.ok.inj hfetch).symm⟩

theorem rest_of_fetch (hfetch : h.fetch = .ok h') : h'.rest = h.rest := by
  obtain ⟨-, rfl⟩ | ⟨hread, hunk, hunks, hhunks, rfl⟩ := fetch_cases hfetch
  · rfl
  · rw [rest, rest, hhunks, List.drop_eq_nil_of_le hread]
    rfl

end HunkReaderWriter

namespace Reading

variable {r : Reading}

/-- What was returned and what was not. -/
def whole (r : Reading) : Bytes := r.returned ++ r.conn.rest

theorem whole_read (r : Reading) {conn : HunkReaderWriter} (hrest : conn.rest = r.conn.rest) (length : Nat) :
    (r.add (conn.read length)).whole = r.whole := by
  unfold HunkReaderWriter.read
  split
  · exact congrArg (r.returned ++ ·) hrest
  · split
    · exact congrArg (r.returned ++ ·) hrest
    · next h hfetch =>
        have hsame := (HunkReaderWriter.rest_of_fetch hfetch).trans hrest
        have htake := List.prefix_iff_eq_append.mp (List.take_prefix length (h.buf.data.drop h.index))
        rw [List.drop_drop] at htake
        rw [whole, whole, ← hsame, add, HunkReaderWriter.rest, HunkReaderWriter.rest, List.append_assoc,
          ← List.append_assoc _ _ (stream _), htake]

theorem whole_readMultiBuffer (hunread : r.conn.Unread) :
    (r.add r.conn.readMultiBuffer).whole = r.whole := by
  unfold HunkReaderWriter.readMultiBuffer
  split
  · rfl
  · next hopen =>
      split
      · rfl
      · next h hfetch =>
          have hsame := HunkReaderWriter.rest_of_fetch hfetch
          split
          · next hcap =>
              have hindex : h.index = 0 := by
                obtain ⟨hmore, rfl⟩ | ⟨-, hunk, hunks, -, rfl⟩ := HunkReaderWriter.fetch_cases hfetch
                · have hfresh := hunread.resolve_left hopen
                  omega
                · rfl
              rw [whole, whole, ← hsame, add, HunkReaderWriter.rest, HunkReaderWriter.rest, hindex,
                List.drop_length, List.drop_zero, List.nil_append, List.append_assoc]
          · exact whole_read r hsame size

/-- `ReadMultiBuffer` is not called while a part of a hunk that it would return again has been read. -/
def Unmixed (r : Reading) (call : Call) : Prop := call = .readMultiBuffer → r.conn.Unread

theorem whole_step {call : Call} (h : Unmixed r call) : (r.step call).whole = r.whole := by
  cases call with
  | read length => exact whole_read r rfl length
  | readMultiBuffer => exact whole_readMultiBuffer (h rfl)
  | close => rfl

theorem returned_readMultiBuffer (h : ¬r.conn.Unread) :
    (r.step .readMultiBuffer).returned = r.returned ++ r.conn.buf.data := by
  unfold HunkReaderWriter.Unread at h
  push Not at h
  obtain ⟨hopen, hcap, -, hmore⟩ := h
  have hfetch : r.conn.fetch = .ok r.conn := if_neg (Nat.not_le.mpr hmore)
  simp only [step, HunkReaderWriter.readMultiBuffer, hopen, hfetch, if_pos hcap, add, Bool.false_eq_true,
    if_false]

end Reading

/-! ### Hunks of the same sizes -/

def Hunk.SameSize (hunk hunk' : Hunk) : Prop :=
  hunk.data.length = hunk'.data.length ∧ hunk.cap = hunk'.cap

def SameSizes : List Hunk → List Hunk → Prop := List.Forall₂ Hunk.SameSize

structure HunkReaderWriter.SameSizes (h h' : HunkReaderWriter) : Prop where
  hunks : Grpc.SameSizes h.hunks h'.hunks
  buf : h.buf.SameSize h'.buf
  recvErr : h.recvErr = h'.recvErr
  done : h.done = h'.done
  index : h.index = h'.index

namespace HunkReaderWriter.SameSizes

variable {h h' : HunkReaderWriter}

theorem fetch (hsame : h.SameSizes h') :
    (∃ err, h.fetch = .error err ∧ h'.fetch = .error err) ∨
      ∃ next next', h.fetch = .ok next ∧ h'.fetch = .ok next' ∧ next.SameSizes next' := by
  unfold HunkReaderWriter.fetch
  rw [← hsame.buf.1, ← hsame.index]
  split
  · unfold forceFetch
    have hhunks := hsame.hunks
    revert hhunks
    generalize h.hunks = hunks, h'.hunks = hunks'
    rintro ⟨⟩
    · rw [← hsame.recvErr]
      cases h.recvErr <;> exact .inl ⟨_, rfl, rfl⟩
    · next hhunk hrest => exact .inr ⟨_, _, rfl, rfl, ⟨hrest, hhunk, hsame.recvErr, hsame.done, rfl⟩⟩
  · exact .inr ⟨_, _, rfl, rfl, hsame⟩

theorem read (hsame : h.SameSizes h') (length : Nat) :
    (h.read length).2.SameSizes (h'.read length).2 := by
  unfold HunkReaderWriter.read
  rw [← hsame.done]
  split
  · exact hsame
  · obtain ⟨err, hfetch, hfetch'⟩ | ⟨next, next', hfetch, hfetch', hnext⟩ := hsame.fetch
    · rw [hfetch, hfetch']
      exact hsame
    · rw [hfetch, hfetch']
      refine ⟨hnext.hunks, hnext.buf, hnext.recvErr, hnext.done, ?_⟩
      simp only [List.length_take, List.length_drop, hnext.index, hnext.buf.1]

theorem readMultiBuffer (hsame : h.SameSizes h') : h.readMultiBuffer.2.SameSizes h'.readMultiBuffer.2 := by
  unfold HunkReaderWriter.readMultiBuffer
  rw [← hsame.done]
  split
  · exact hsame
  · obtain ⟨err, hfetch, hfetch'⟩ | ⟨next, next', hfetch, hfetch', hnext⟩ := hsame.fetch
    · rw [hfetch, hfetch']
      exact hsame
    · rw [hfetch, hfetch']
      dsimp only
      rw [← hnext.buf.2]
      split
      · exact ⟨hnext.hunks, hnext.buf, hnext.recvErr, hnext.done, hnext.buf.1⟩
      · exact hnext.read size

theorem unread_iff (hsame : h.SameSizes h') : h.Unread ↔ h'.Unread := by
  rw [Unread, Unread, hsame.done, hsame.buf.1, hsame.buf.2, hsame.index]

end HunkReaderWriter.SameSizes

namespace Reading

variable {r r' : Reading}

theorem conn_add (r : Reading) (result : Except Error Bytes × HunkReaderWriter) :
    (r.add result).conn = result.2 := by
  obtain ⟨_ | _, _⟩ := result <;> rfl

theorem sameSizes_step (hsame : r.conn.SameSizes r'.conn) (call : Call) :
    (r.step call).conn.SameSizes (r'.step call).conn := by
  cases call with
  | read length =>
      rw [step, step, conn_add, conn_add]
      exact hsame.read length
  | readMultiBuffer =>
      rw [step, step, conn_add, conn_add]
      exact hsame.readMultiBuffer
  | close => exact ⟨hsame.hunks, hsame.buf, hsame.recvErr, rfl, hsame.index⟩

/-- Whether the calls are mixed depends on the sizes only. -/
theorem along_unmixed_iff (hsame : r.conn.SameSizes r'.conn) (calls : List Call) :
    Along step Unmixed r calls ↔ Along step Unmixed r' calls := by
  induction calls generalizing r r' with
  | nil => exact Iff.rfl
  | cons call calls ih =>
      have hunread := hsame.unread_iff
      rw [Along, Along, Unmixed, Unmixed, hunread, ih (sameSizes_step hsame call)]

end Reading

/-! ### Contents that show a second return -/

/-- The first byte does not come again. -/
def Hunk.Marked (hunk : Hunk) : Prop :=
  ∀ i, 0 < i → i < hunk.data.length → hunk.data[i]? ≠ hunk.data[0]?

def Hunk.mark (hunk : Hunk) : Hunk :=
  ⟨(List.replicate hunk.data.length 0).set 0 1, hunk.cap, by simpa using hunk.length_le⟩

theorem Hunk.sameSize_mark (hunk : Hunk) : hunk.SameSize hunk.mark := ⟨by simp [mark], rfl⟩

theorem Hunk.marked_mark (hunk : Hunk) : hunk.mark.Marked := by
  intro i hpos hlt
  have hlength : hunk.mark.data.length = hunk.data.length := hunk.sameSize_mark.1.symm
  have hzero : hunk.mark.data[i]? = some 0 := by
    rw [mark, List.getElem?_set_ne (Nat.ne_of_lt hpos), List.getElem?_replicate, if_pos (hlength ▸ hlt)]
  have hone : hunk.mark.data[0]? = some 1 := by
    refine List.getElem?_set_self ?_
    rw [List.length_replicate]
    omega
  rw [hzero, hone]
  decide

structure HunkReaderWriter.Marked (h : HunkReaderWriter) : Prop where
  hunks : ∀ hunk ∈ h.hunks, hunk.Marked
  buf : h.buf.Marked

namespace HunkReaderWriter.Marked

variable {h next : HunkReaderWriter}

theorem fetch (hmarked : h.Marked) (hfetch : h.fetch = .ok next) : next.Marked := by
  obtain ⟨-, rfl⟩ | ⟨-, hunk, hunks, hhunks, rfl⟩ := fetch_cases hfetch
  · exact hmarked
  · have hall := hmarked.hunks
    rw [hhunks, List.forall_mem_cons] at hall
    exact ⟨hall.2, hall.1⟩

theorem read (hmarked : h.Marked) (length : Nat) : (h.read length).2.Marked := by
  unfold HunkReaderWriter.read
  split
  · exact hmarked
  · split
    · exact hmarked
    · next hfetch => exact ⟨(hmarked.fetch hfetch).hunks, (hmarked.fetch hfetch).buf⟩

theorem readMultiBuffer (hmarked : h.Marked) : h.readMultiBuffer.2.Marked := by
  unfold HunkReaderWriter.readMultiBuffer
  split
  · exact hmarked
  · split
    · exact hmarked
    · next hfetch =>
        split
        · exact ⟨(hmarked.fetch hfetch).hunks, (hmarked.fetch hfetch).buf⟩
        · exact (hmarked.fetch hfetch).read size

theorem step {r : Reading} (hmarked : r.conn.Marked) (call : Call) : (r.step call).conn.Marked := by
  cases call with
  | read length =>
      rw [Reading.step, Reading.conn_add]
      exact hmarked.read length
  | readMultiBuffer =>
      rw [Reading.step, Reading.conn_add]
      exact hmarked.readMultiBuffer
  | close => exact ⟨hmarked.hunks, hmarked.buf⟩

theorem not_front (hmarked : h.Marked) (hread : ¬h.Unread) : ¬h.buf.data <+: h.rest := by
  unfold Unread at hread
  push Not at hread
  obtain ⟨-, -, hpos, hmore⟩ := hread
  rintro ⟨tail, htail⟩
  refine hmarked.buf h.index (Nat.pos_of_ne_zero hpos) hmore ?_
  have hfirst : (h.buf.data ++ tail)[0]? = h.rest[0]? := by rw [htail]
  rw [List.getElem?_append_left (Nat.zero_lt_of_lt hmore), rest, List.getElem?_append_left,
    List.getElem?_drop, Nat.add_zero] at hfirst
  · exact hfirst.symm
  · rw [List.length_drop]
    omega

end HunkReaderWriter.Marked

/-! ### Runs -/

/-- After every call, what was returned is the front of the stream. -/
def ReadsOnce (hunks : List Hunk) (recvErr : Error) (calls : List Call) : Prop :=
  ∀ first, first <+: calls →
    (Transition.run Reading.step { conn := { hunks, recvErr } } first).returned <+: stream hunks

namespace Reading

variable {r : Reading}

theorem readsOnce_of_along {hunks : List Hunk} {recvErr : Error} {calls : List Call}
    (h : Along step Unmixed { conn := { hunks, recvErr } } calls) :
    ReadsOnce hunks recvErr calls := by
  intro first hfirst
  have hwhole := run_induction_along (P := fun r => r.whole = stream hunks)
    (fun _ _ hwhole hunmixed => (whole_step hunmixed).trans hwhole) first _ rfl (h.of_front hfirst)
  exact ⟨_, hwhole⟩

theorem step_prefix_iff {text : Bytes} (hwhole : r.whole = text) (hmarked : r.conn.Marked) (call : Call) :
    (r.step call).returned <+: text ↔ Unmixed r call := by
  constructor
  · rintro hfront rfl
    by_contra hread
    rw [returned_readMultiBuffer hread, ← hwhole, whole, List.prefix_append_right_inj] at hfront
    exact hmarked.not_front hread hfront
  · exact fun hunmixed => ⟨_, (whole_step hunmixed).trans hwhole⟩

end Reading

/-- **Hunks are returned once exactly if the reads are not mixed.** For hunks of any sizes and capacities and any
calls, whatever the contents are: `ReadMultiBuffer` must not be called while only a part of a hunk of capacity
8192 or more has been read. -/
theorem readsOnce_iff (hunks : List Hunk) (recvErr : Error) (calls : List Call) :
    (∀ hunks', SameSizes hunks hunks' → ReadsOnce hunks' recvErr calls) ↔
      Along Reading.step Reading.Unmixed { conn := { hunks, recvErr } } calls := by
  have hsame {hunks' : List Hunk} (hsizes : SameSizes hunks hunks') :
      Along Reading.step Reading.Unmixed { conn := { hunks, recvErr } } calls ↔
        Along Reading.step Reading.Unmixed { conn := { hunks := hunks', recvErr } } calls := by
    refine Reading.along_unmixed_iff ?_ calls
    exact ⟨hsizes, ⟨rfl, rfl⟩, rfl, rfl, rfl⟩
  constructor
  · intro hall
    have hsizes : SameSizes hunks (hunks.map Hunk.mark) := by
      refine List.forall₂_map_right_iff.mpr (List.forall₂_same.mpr fun hunk _ => ?_)
      exact hunk.sameSize_mark
    have hmarked : ({ hunks := hunks.map Hunk.mark, recvErr } : HunkReaderWriter).Marked := by
      refine ⟨fun hunk hmem => ?_, fun i _ hlt => absurd hlt (Nat.not_lt_zero i)⟩
      obtain ⟨original, -, rfl⟩ := List.mem_map.mp hmem
      exact original.marked_mark
    refine (hsame hsizes).mpr ?_
    refine (forall_prefix_iff_along
      (I := fun r : Reading => r.whole = stream (hunks.map Hunk.mark) ∧ r.conn.Marked)
      (P := fun r : Reading => r.returned <+: stream (hunks.map Hunk.mark))
      (fun r call hr _ hnext => ?_) (fun r call hr _ => Reading.step_prefix_iff hr.1 hr.2 call) calls _
      ⟨rfl, hmarked⟩ List.nil_prefix).mp (hall _ hsizes)
    have hunmixed := (Reading.step_prefix_iff hr.1 hr.2 call).mp hnext
    exact ⟨(Reading.whole_step hunmixed).trans hr.1, hr.2.step call⟩
  · exact fun halong hunks' hsizes => Reading.readsOnce_of_along ((hsame hsizes).mp halong)

theorem not_readsOnce_of_cons {hunk : Hunk} {a b : UInt8} {tail : Bytes} (hdata : hunk.data = a :: b :: tail)
    (hne : a ≠ b) (hcap : size ≤ hunk.cap) : ¬ReadsOnce [hunk] .eof [.read 1, .readMultiBuffer] := by
  intro honce
  have hread : Reading.step { conn := { hunks := [hunk] } } (.read 1) =
      { conn := { hunks := [], buf := hunk, index := 1 }, returned := [a] } := by
    simp [Reading.step, Reading.add, HunkReaderWriter.read, HunkReaderWriter.fetch,
      HunkReaderWriter.forceFetch, hdata]
  have hunread : ¬({ hunks := [], buf := hunk, index := 1 } : HunkReaderWriter).Unread := by
    rintro (hdone | hsmall | hzero | hall)
    · cases hdone
    · exact absurd hcap (Nat.not_le.mpr hsmall)
    · cases hzero
    · simp [hdata] at hall
  have hfront := honce _ List.prefix_rfl
  rw [run_cons, run_cons, hread, run_nil,
    Reading.returned_readMultiBuffer hunread, stream, List.flatMap_singleton, hdata] at hfront
  obtain ⟨rest, hrest⟩ := hfront
  exact hne (List.cons.inj (List.cons.inj hrest).2).1

/-- After one byte of a hunk of 8192 bytes, `ReadMultiBuffer` returns it again. -/
theorem not_readsOnce_mixed :
    ¬ReadsOnce [⟨1 :: 0 :: List.replicate 8190 0, 8192,
      by rw [List.length_cons, List.length_cons, List.length_replicate]⟩] .eof [.read 1, .readMultiBuffer] :=
  not_readsOnce_of_cons rfl (by decide) (Nat.le_refl 8192)

end V2RootCore.Grpc
