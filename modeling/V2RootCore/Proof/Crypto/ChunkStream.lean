import V2RootCore.Proof.Crypto.Auth
import V2RootCore.Proof.Go.Slices

/-!
# Plain chunks are read as they were written
-/

namespace V2RootCore.Crypto

open Go Buf MultiBuffer

variable {σ ρ : Type}

inductive PlainChunk (sizeParser : ChunkSizeParser σ) : σ → Bytes → Bytes → σ → Prop
  | intro {st st' : σ} {payload field : Bytes} (hfield : field.length = sizeParser.sizeBytes)
      (hdecode : sizeParser.decode st field = (.ok (UInt16.ofNat payload.length), st'))
      (hsize : payload.length ≤ size) : PlainChunk sizeParser st payload (field ++ payload) st'

/-- Empty buffers stand before one that is too long to be taken whole. -/
def Stalled (mb : MultiBuffer ρ) : Prop :=
  ∃ front b rest, mb = front ++ b :: rest ∧ front ≠ [] ∧ (∀ b' ∈ front, b'.bytes = []) ∧ size < b.len

theorem not_stalled_of_head {b : Buffer ρ} {rest : MultiBuffer ρ} (hb : b.bytes ≠ []) :
    ¬Stalled (b :: rest) := by
  rintro ⟨front, b', rest', heq, hne, hfront, -⟩
  cases front with
  | nil => exact hne rfl
  | cons head front =>
      obtain ⟨rfl, -⟩ := List.cons.inj heq
      exact hb (hfront b List.mem_cons_self)

theorem not_stalled_of_sizes {mb : MultiBuffer ρ} (hsizes : ∀ b ∈ mb, b.len ≤ size) : ¬Stalled mb := by
  rintro ⟨front, b, rest, rfl, -, -, hlong⟩
  exact absurd hlong (not_lt.mpr (hsizes b (by simp)))

theorem Buffer.ne_nil_of_lt {b : Buffer ρ} {n : Nat} (h : n < b.len) : b.bytes ≠ [] :=
  List.length_pos_iff.mp (Nat.zero_lt_of_lt h)

/-- What is left after whole buffers starts with one that is not empty. -/
theorem not_stalled_splitWhole (room : Nat) (mb : MultiBuffer ρ) : ¬Stalled (mb.splitWhole room).1 := by
  induction mb generalizing room with
  | nil =>
      rintro ⟨front, b, rest, heq, -⟩
      exact List.append_ne_nil_of_right_ne_nil front (List.cons_ne_nil b rest) heq.symm
  | cons b rest ih =>
      rw [splitWhole]
      split_ifs with hroom
      · exact not_stalled_of_head (Buffer.ne_nil_of_lt hroom)
      · exact ih _

theorem splitWhole_eq_nil_iff (mb : MultiBuffer ρ) : (mb.splitWhole size).2.bytes = [] ↔
    mb.bytes = [] ∨ ∃ front b rest, mb = front ++ b :: rest ∧ (∀ b' ∈ front, b'.bytes = []) ∧
      size < b.len := by
  induction mb with
  | nil => exact iff_of_true rfl (.inl rfl)
  | cons b rest ih =>
      rw [splitWhole]
      split_ifs with hroom
      · exact iff_of_true rfl (.inr ⟨[], b, rest, rfl, fun b' hb' => absurd hb' List.not_mem_nil, hroom⟩)
      · by_cases hb : b.bytes = []
        · have hlen : b.len = 0 := by rw [Buffer.len, hb, List.length_nil]
          simp only [bytes_cons, hb, List.nil_append, hlen, Nat.sub_zero]
          refine ih.trans (or_congr Iff.rfl ⟨?_, ?_⟩)
          · rintro ⟨front, b', rest', rfl, hfront, hlong⟩
            exact ⟨b :: front, b', rest', rfl, List.forall_mem_cons.mpr ⟨hb, hfront⟩, hlong⟩
          · rintro ⟨front, b', rest', heq, hfront, hlong⟩
            cases front with
            | nil =>
                obtain ⟨rfl, -⟩ := List.cons.inj heq
                exact absurd hlong hroom
            | cons head front =>
                exact ⟨front, b', rest', (List.cons.inj heq).2,
                  fun b'' hb'' => hfront b'' (List.mem_cons_of_mem _ hb''), hlong⟩
        · refine iff_of_false (by simp [bytes_cons, hb]) ?_
          rintro (hnil | ⟨front, b', rest', heq, hfront, hlong⟩)
          · exact hb (by simpa [bytes_cons] using (List.append_eq_nil_iff.mp hnil).1)
          · cases front with
            | nil =>
                obtain ⟨rfl, -⟩ := List.cons.inj heq
                exact hroom hlong
            | cons head front =>
                obtain ⟨rfl, -⟩ := List.cons.inj heq
                exact hb (hfront b List.mem_cons_self)

/-- **One chunk** is empty exactly if the multi-buffer is stalled, and what is left of it is not. -/
theorem splitSize_stalled {mb left taken : MultiBuffer ρ} (hmb : mb.bytes ≠ [])
    (hsplit : mb.splitSize size = .ok (left, taken)) : (taken.bytes = [] ↔ Stalled mb) ∧ ¬Stalled left := by
  cases mb with
  | nil => exact absurd rfl hmb
  | cons b rest =>
      rw [splitSize, if_neg (lt_irrefl size)] at hsplit
      split_ifs at hsplit with hlong
      · obtain ⟨rfl, rfl⟩ := Prod.mk.inj (Except.ok.inj hsplit)
        have hb := Buffer.ne_nil_of_lt hlong
        refine ⟨iff_of_false ?_ (not_stalled_of_head hb), not_stalled_of_head ?_⟩
        · simpa [MultiBuffer.bytes] using ⟨by decide, hb⟩
        · rw [Ne, List.drop_eq_nil_iff, not_le]
          exact hlong
      · have hwhole : splitWhole size (b :: rest) = (left, taken) := Except.ok.inj hsplit
        have hleft := not_stalled_splitWhole size (b :: rest)
        have htaken := splitWhole_eq_nil_iff (b :: rest)
        rw [hwhole] at hleft htaken
        refine ⟨htaken.trans ⟨?_, ?_⟩, hleft⟩
        · rintro (hnil | ⟨front, b', rest', heq, hfront, hlong'⟩)
          · exact absurd hnil hmb
          · refine ⟨front, b', rest', heq, ?_, hfront, hlong'⟩
            rintro rfl
            obtain ⟨rfl, -⟩ := List.cons.inj heq
            exact hlong hlong'
        · rintro ⟨front, b', rest', heq, -, hfront, hlong'⟩
          exact .inr ⟨front, b', rest', heq, hfront, hlong'⟩

namespace ChunkStreamWriter

variable {sizeParser : ChunkSizeParser σ} {valid : σ → Prop} {w : ChunkStreamWriter σ} {mb : MultiBuffer ρ}

theorem foldl_len_eq {n : Nat} (hlen : n + mb.len < 2 ^ 31) :
    mb.foldl (fun size b => int32 (size + b.len)) (n : Int) = (n + mb.len : Nat) := by
  induction mb generalizing n with
  | nil => rfl
  | cons b rest ih =>
      have hsum : MultiBuffer.len (b :: rest) = b.len + MultiBuffer.len rest := by
        simp [MultiBuffer.len, Buffer.len]
      rw [hsum, ← Nat.add_assoc] at hlen ⊢
      rw [List.foldl_cons, int32_eq (by omega) (by omega), ← Nat.cast_add, ih hlen]

theorem mbLen_eq (hlen : mb.len < 2 ^ 31) : mbLen mb = mb.len := by
  rw [← Nat.zero_add mb.len] at hlen ⊢
  exact foldl_len_eq hlen

theorem capacity_nonneg (hlen : mb.len < 2 ^ 31) : 0 ≤ capacity mb := by
  have hfirst : 0 ≤ (mb.len : Int).tdiv size := Int.tdiv_nonneg (Int.natCast_nonneg _) (by decide)
  have hsecond : 0 ≤ (mb.len : Int).tdiv 8192 := Int.tdiv_nonneg (Int.natCast_nonneg _) (by decide)
  rw [capacity, mbLen_eq hlen]
  omega

theorem writeMultiBuffer_eq (w : ChunkStreamWriter σ) (hroom : 0 ≤ capacity mb) :
    w.writeMultiBuffer mb = w.writeLoop (mb.length + mb.len + 1) mb [] :=
  if_neg (not_lt.mpr hroom)

/-- Multi-buffers are written one after the other. -/
def writeAll : ChunkStreamWriter σ → List (MultiBuffer ρ) → Except Error Bytes
  | _, [] => .ok []
  | w, mb :: mbs =>
      match w.writeMultiBuffer mb with
      | (.error err, _) => .error err
      | (.ok bytes, w) => do
          let more ← writeAll w mbs
          .ok (bytes ++ more)

variable (hlawful : Lawful sizeParser none valid) (hparser : w.sizeEncoder = sizeParser)
  (hvalid : valid w.state)

include hlawful hparser hvalid

theorem encode_spec (slice : Bytes) (hslice : slice.length ≤ size) :
    ∃ field state', w.sizeEncoder.encode w.state (UInt16.ofNat slice.length) = (.ok field, state') ∧
      valid state' ∧ PlainChunk sizeParser w.state slice (field ++ slice) state' := by
  subst hparser
  obtain ⟨field, state', hencode, hdecode, hfield, hvalid'⟩ :=
    hlawful.decode_encode w.state (UInt16.ofNat slice.length) hvalid
  exact ⟨field, state', hencode, hvalid', .intro hfield hdecode hslice⟩

theorem writeLoop_spec (fuel : Nat) (mb : MultiBuffer ρ) (mb2Write : Bytes)
    (hfuel : mb.length + mb.len < fuel) (hmb : mb.bytes ≠ []) :
    ∃ payload payloads chunks w', w.writeLoop fuel mb mb2Write = (.ok (mb2Write ++ chunks), w') ∧
      w'.sizeEncoder = sizeParser ∧ valid w'.state ∧
      Wire (PlainChunk sizeParser) w.state (payload :: payloads) chunks w'.state ∧
      (payload = [] ↔ Stalled mb) ∧ [] ∉ payloads ∧ payload ++ payloads.flatten = mb.bytes := by
  induction fuel generalizing w mb mb2Write with
  | zero => omega
  | succ fuel ih =>
      have hne : mb ≠ [] := by
        rintro rfl
        exact hmb rfl
      obtain ⟨left, taken, hsplit, hbytes, htaken, hless⟩ :=
        mb.splitSize_spec size hne (by decide) le_rfl
      obtain ⟨hstalled, hleft⟩ := splitSize_stalled hmb hsplit
      obtain ⟨field, state', hencode, hvalid', hchunk⟩ :=
        encode_spec hlawful hparser hvalid taken.bytes htaken
      have hsplit : mb.splitSize 8192 = .ok (left, taken) := hsplit
      by_cases hempty : left.isEmpty
      · refine ⟨taken.bytes, [], _, { w with state := state' }, ?_, hparser, hvalid', .single hchunk,
          hstalled, nofun, ?_⟩
        · simp only [writeLoop, hsplit, MultiBuffer.len, hencode, hempty, if_true, List.append_assoc]
        · rw [← hbytes, (MultiBuffer.isEmpty_iff _).mp hempty, List.flatten_nil]
      · obtain ⟨payload, payloads, chunks, w', hloop, hparser', hvalid'', hwire, hpayload, hpayloads,
            hflatten⟩ :=
          ih (w := { w with state := state' }) hparser hvalid' left
            (mb2Write ++ field ++ taken.bytes) (by omega)
            ((MultiBuffer.isEmpty_eq_false_iff _).mp (by simpa using hempty))
        refine ⟨taken.bytes, payload :: payloads, _, w', ?_, hparser', hvalid'', .cons hchunk hwire,
          hstalled, ?_, ?_⟩
        · simp only [writeLoop, hsplit, MultiBuffer.len, hencode, hempty, Bool.false_eq_true, if_false]
          rw [hloop, List.append_assoc, List.append_assoc, List.append_assoc]
        · rintro hmem
          obtain hnil | hmem := List.mem_cons.mp hmem
          · exact hleft (hpayload.mp hnil.symm)
          · exact hpayloads hmem
        · rw [List.flatten_cons, hflatten, hbytes]

theorem writeMultiBuffer_data (hmb : mb.bytes ≠ []) (hroom : 0 ≤ capacity mb) :
    ∃ payload payloads chunks w', w.writeMultiBuffer mb = (.ok chunks, w') ∧
      w'.sizeEncoder = sizeParser ∧ valid w'.state ∧
      Wire (PlainChunk sizeParser) w.state (payload :: payloads) chunks w'.state ∧
      (payload = [] ↔ Stalled mb) ∧ [] ∉ payloads ∧ payload ++ payloads.flatten = mb.bytes := by
  rw [writeMultiBuffer_eq w hroom]
  exact writeLoop_spec hlawful hparser hvalid (mb.length + mb.len + 1) mb [] (Nat.lt_succ_self _) hmb

theorem writeMultiBuffer_spec (mb : MultiBuffer ρ) (hsizes : ∀ b ∈ mb, b.len ≤ size)
    (hroom : 0 ≤ capacity mb) :
    ∃ payloads chunks w', w.writeMultiBuffer mb = (.ok chunks, w') ∧
      w'.sizeEncoder = sizeParser ∧ valid w'.state ∧
      Wire (PlainChunk sizeParser) w.state payloads chunks w'.state ∧
      Cut mb.bytes payloads := by
  by_cases hempty : mb.bytes = []
  · obtain ⟨happend, -⟩ := splitWhole_spec size mb
    have hbytes : (mb.splitWhole size).2.bytes ++ (mb.splitWhole size).1.bytes = mb.bytes := by
      rw [← bytes_append, happend]
    rw [hempty, List.append_eq_nil_iff] at hbytes
    obtain ⟨field, state', hencode, hvalid', hchunk⟩ :=
      encode_spec hlawful hparser hvalid [] (Nat.zero_le _)
    refine ⟨[[]], _, { w with state := state' }, ?_, hparser, hvalid', .single hchunk,
      by rw [hempty]; exact .empty⟩
    have hsplit : mb.splitSize 8192 = .ok (mb.splitWhole size) := by
      cases mb with
      | nil => rfl
      | cons b rest => exact if_neg (not_lt.mpr (hsizes b List.mem_cons_self))
    have hleft := (MultiBuffer.isEmpty_iff _).mpr hbytes.2
    simp [writeMultiBuffer_eq w hroom, writeLoop, hsplit, MultiBuffer.len, hbytes.1, hleft] at hencode ⊢
    simp [hencode]
  · obtain ⟨payload, payloads, chunks, w', hwrite, hparser', hvalid', hwire, hpayload, hpayloads,
      hflatten⟩ := writeMultiBuffer_data hlawful hparser hvalid hempty hroom
    refine ⟨_, chunks, w', hwrite, hparser', hvalid', hwire, .of_flatten hempty ?_ hflatten⟩
    rintro payload' hmem rfl
    obtain hnil | hmem := List.mem_cons.mp hmem
    · exact not_stalled_of_sizes hsizes (hpayload.mp hnil.symm)
    · exact hpayloads hmem

theorem writeAll_spec (mbs : List (MultiBuffer ρ)) (hmbs : ∀ mb ∈ mbs, mb.bytes ≠ [])
    (hlen : ∀ mb ∈ mbs, mb.len < 2 ^ 31) :
    ∃ payloads wire last, w.writeAll mbs = .ok wire ∧
      Wire (PlainChunk sizeParser) w.state payloads wire last ∧
      payloads.flatten = mbs.flatMap MultiBuffer.bytes ∧
      ((∀ mb ∈ mbs, ¬Stalled mb) → [] ∉ payloads) ∧
      ((∃ mb ∈ mbs, Stalled mb) →
        (untilEmpty payloads).flatten.length < (mbs.flatMap MultiBuffer.bytes).length) := by
  induction mbs generalizing w with
  | nil => exact ⟨[], [], w.state, rfl, .nil _, rfl, fun _ => nofun, by simp⟩
  | cons mb mbs ih =>
      obtain ⟨hmb, hmbs⟩ := List.forall_mem_cons.mp hmbs
      obtain ⟨hhead, hlen⟩ := List.forall_mem_cons.mp hlen
      obtain ⟨payload, payloads, chunks, w', hwrite, hparser', hvalid', hwire, hpayload, hpayloads,
        hflatten⟩ := writeMultiBuffer_data hlawful hparser hvalid hmb (capacity_nonneg hhead)
      obtain ⟨payloads', wire, last, hall, hwire', hflatten', hfree, hshort⟩ :=
        ih hparser' hvalid' hmbs hlen
      refine ⟨payload :: payloads ++ payloads', chunks ++ wire, last, ?_, hwire.append hwire', ?_, ?_, ?_⟩
      · simp only [writeAll, hwrite, hall, bind, Except.bind]
      · rw [List.flatten_append, List.flatten_cons, hflatten, hflatten', List.flatMap_cons]
      · intro hnot
        obtain ⟨hhead, htail⟩ := List.forall_mem_cons.mp hnot
        rintro hmem
        obtain hmem | hmem := List.mem_append.mp hmem
        · obtain hnil | hmem := List.mem_cons.mp hmem
          · exact hhead (hpayload.mp hnil.symm)
          · exact hpayloads hmem
        · exact hfree htail hmem
      · intro hsome
        rw [List.flatMap_cons, List.length_append]
        have hpos := List.length_pos_iff.mpr hmb
        by_cases hstalled : Stalled mb
        · rw [hpayload.mpr hstalled, List.cons_append, untilEmpty, List.takeWhile_cons_of_neg (by simp)]
          rw [List.flatten_nil, List.length_nil]
          omega
        · have hne : payload ≠ [] := fun hnil => hstalled (hpayload.mp hnil)
          have hrest : ∀ other ∈ payload :: payloads, other ≠ [] := by
            rintro other hother rfl
            obtain hnil | hother := List.mem_cons.mp hother
            · exact hne hnil.symm
            · exact hpayloads hother
          have htail : ∃ mb ∈ mbs, Stalled mb := by
            obtain ⟨mb', hmem, hmb'⟩ := hsome
            obtain rfl | hmem := List.mem_cons.mp hmem
            · exact absurd hmb' hstalled
            · exact ⟨mb', hmem, hmb'⟩
          have hless := hshort htail
          rw [Crypto.untilEmpty_append hrest, List.flatten_append, List.flatten_cons, hflatten,
            List.length_append]
          omega

end ChunkStreamWriter

namespace ChunkStreamReader

variable {last : σ} {r : ChunkStreamReader σ ρ} {payloads : List Bytes}

inductive Awaits (last : σ) (r : ChunkStreamReader σ ρ) : List Bytes → Prop
  | fresh {payloads : List Bytes} (hpos : 0 < r.sizeDecoder.sizeBytes) (hleft : r.leftOverSize = 0)
      (hwire : Wire (PlainChunk r.sizeDecoder) r.state payloads r.reader.content last) :
      Awaits last r payloads
  | within {payload rest : Bytes} {payloads : List Bytes} (hpos : 0 < r.sizeDecoder.sizeBytes)
      (hpayload : payload ≠ []) (hsize : payload.length ≤ size)
      (hleft : r.leftOverSize = payload.length) (hcontent : r.reader.content = payload ++ rest)
      (hwire : Wire (PlainChunk r.sizeDecoder) r.state payloads rest last) :
      Awaits last r (payload :: payloads)

theorem readChunk_spec {payload rest : Bytes} (hpos : 0 < r.sizeDecoder.sizeBytes)
    (hpayload : payload ≠ []) (hsize : payload.length ≤ size)
    (hcontent : r.reader.content = payload ++ rest)
    (hwire : Wire (PlainChunk r.sizeDecoder) r.state payloads rest last) :
    ∃ mb r' payloads', r.readChunk payload.length = (.ok mb, r') ∧ r'.Awaits last payloads' ∧
      mb.bytes ++ (untilEmpty payloads').flatten = payload ++ (untilEmpty payloads).flatten ∧
      ([] ∈ payloads' ↔ [] ∈ payloads) ∧ r'.reader.weight < r.reader.weight := by
  have hlength : 0 < payload.length := List.length_pos_iff.mpr hpayload
  obtain ⟨mb, reader', hread, happend, hlen, hweight⟩ :=
    r.reader.readAtMost_spec payload.length (by simp [hcontent, hpayload]) hlength hsize
  obtain ⟨more, rfl⟩ : mb.bytes <+: payload :=
    List.prefix_of_prefix_length_le ⟨_, happend⟩ ⟨rest, hcontent.symm⟩ hlen
  have hcontent' : reader'.content = more ++ rest := by
    rw [hcontent, List.append_assoc] at happend
    exact List.append_cancel_left happend
  have hchunk : ∃ mb', r.readChunk (mb.bytes ++ more).length =
      (.ok mb', { r with reader := reader', leftOverSize := more.length }) ∧ mb'.bytes = mb.bytes := by
    by_cases hempty : mb.isEmpty
    · have hnil := (MultiBuffer.isEmpty_iff mb).mp hempty
      rw [hnil, List.nil_append] at hread ⊢
      exact ⟨[], by simp [readChunk, hread, hempty], rfl⟩
    · refine ⟨mb, ?_, rfl⟩
      rw [readChunk, hread]
      simp [hempty, MultiBuffer.len]
  obtain ⟨mb', hchunk, hbytes⟩ := hchunk
  by_cases hmore : more = []
  · subst hmore
    refine ⟨mb', _, payloads, hchunk, .fresh hpos rfl ?_, by simp [hbytes], Iff.rfl, hweight⟩
    rw [show reader'.content = rest from hcontent']
    exact hwire
  · refine ⟨mb', _, more :: payloads, hchunk, .within hpos hmore ?_ rfl hcontent' hwire, ?_, ?_,
      hweight⟩
    · rw [List.length_append] at hsize
      omega
    · simp [untilEmpty_cons hmore, hbytes]
    · simp [Ne.symm hmore]

theorem readMultiBuffer_spec (h : r.Awaits last payloads) :
    (∃ mb r' payloads', r.readMultiBuffer = (.ok mb, r') ∧ r'.Awaits last payloads' ∧
        mb.bytes ++ (untilEmpty payloads').flatten = (untilEmpty payloads).flatten ∧
        ([] ∈ payloads' ↔ [] ∈ payloads) ∧ r'.reader.weight < r.reader.weight) ∨
      (untilEmpty payloads = [] ∧ ∃ r', r.readMultiBuffer = (.error .eof, r') ∧
        ([] ∉ payloads → r'.reader.content = [])) := by
  cases h with
  | @within payload rest payloads hpos hpayload hsize hleft hcontent hwire =>
      obtain ⟨mb, r', payloads', hread, hawaits, hbytes, hmem, hweight⟩ :=
        readChunk_spec hpos hpayload hsize hcontent hwire
      have hlength : payload.length ≠ 0 := by simpa using hpayload
      refine .inl ⟨mb, r', payloads', ?_, hawaits, ?_, ?_, hweight⟩
      · rw [readMultiBuffer, hleft, if_neg hlength, hread]
      · rw [hbytes, untilEmpty_cons hpayload, List.flatten_cons]
      · simp [hmem, Ne.symm hpayload]
  | fresh hpos hleft hwire =>
      generalize hcontent : r.reader.content = content at hwire
      cases hwire with
      | nil =>
          obtain ⟨reader', hread, hcontent'⟩ := BufferedReader.readFull_eof hpos hcontent
          refine .inr ⟨rfl, { r with reader := reader' }, ?_, fun _ => hcontent'⟩
          simp [readMultiBuffer, hleft, hread]
      | @cons _ st' _ payload _ rest payloads hchunk hrest =>
          obtain ⟨hfield, hdecode, hsize⟩ := hchunk
          rw [List.append_assoc] at hcontent
          obtain ⟨reader', hfull, hcontent', hweight'⟩ := BufferedReader.readFull_append hcontent
          rw [hfield] at hfull
          have hnat := toNat_ofNat_uint16 (hsize.trans_lt (by decide))
          by_cases hpayload : payload = []
          · subst hpayload
            refine .inr ⟨rfl, { r with reader := reader', state := st' }, ?_, by simp⟩
            simp [readMultiBuffer, hleft, hfull, hdecode]
          · obtain ⟨mb, r', payloads', hread, hawaits, hbytes, hmem, hweight⟩ :=
              readChunk_spec (r := { r with reader := reader', state := st' }) hpos hpayload hsize
                hcontent' hrest
            have hzero : UInt16.ofNat payload.length ≠ 0 := by
              rw [ne_eq, ← UInt16.toNat_inj, hnat]
              simpa using hpayload
            refine .inl ⟨mb, r', payloads', ?_, hawaits, ?_, ?_, hweight.trans_le hweight'⟩
            · rw [hleft] at hread
              simp only [readMultiBuffer, hleft, if_true, hfull, hdecode, hzero, if_false, hnat, hread]
            · rw [hbytes, untilEmpty_cons hpayload, List.flatten_cons]
            · simp [hmem, Ne.symm hpayload]

/-- **The reader returns the bytes of the payloads up to the first empty one, and then the end.**
Without an empty one it sees the end of the wire, with nothing left on it. -/
theorem copyInternal_spec (fuel : Nat) (h : r.Awaits last payloads) (kept : MultiBuffer ρ)
    (hfuel : r.reader.weight < fuel) :
    ∃ r' kept', copyInternal readMultiBuffer keep fuel r kept = (.readError .eof, r', kept') ∧
      kept'.bytes = kept.bytes ++ (untilEmpty payloads).flatten ∧
      ([] ∉ payloads → r'.reader.content = []) := by
  induction fuel generalizing r payloads kept with
  | zero => omega
  | succ fuel ih =>
      obtain ⟨mb, r', payloads', hread, hawaits, hbytes, hmem, hweight⟩ | ⟨huntil, r', hread, hcontent⟩ :=
        readMultiBuffer_spec h
      · rw [← hbytes, ← hmem]
        by_cases hempty : mb.isEmpty
        · obtain ⟨r'', kept', hcopy, hkept, hrest⟩ := ih hawaits kept (by omega)
          refine ⟨r'', kept', ?_, ?_, hrest⟩
          · simpa only [copyInternal, hread, hempty, if_true] using hcopy
          · rw [hkept, (MultiBuffer.isEmpty_iff _).mp hempty, List.nil_append]
        · obtain ⟨r'', kept', hcopy, hkept, hrest⟩ := ih hawaits (kept ++ mb) (by omega)
          refine ⟨r'', kept', ?_, ?_, hrest⟩
          · simpa only [copyInternal, hread, hempty, Bool.false_eq_true, if_false, keep] using hcopy
          · rw [hkept, bytes_append, List.append_assoc]
      · exact ⟨r', kept, by simp [copyInternal, hread], by simp [huntil], hcontent⟩

end ChunkStreamReader

theorem lawful_plain : Lawful (plainChunkSizeParser (σ := σ)) none fun _ => True where
  sizeBytes_pos := Nat.succ_pos 1
  decode_encode st size _ :=
    ⟨_, st, rfl, congrArg (fun n => (Except.ok n, st)) (uint16_putUint16 size), rfl, trivial⟩
  valid_nextPadding _ _ := trivial
  nextPadding_le _ := le_rfl

/-- All that a reader of plain chunks returns, and its end. -/
def ReadsAll (st : σ) (wire content : Bytes) : Prop :=
  ∀ reader : BufferedReader ρ, reader.content = wire → ∀ fuel, reader.weight < fuel →
    ∃ r' kept, copyInternal ChunkStreamReader.readMultiBuffer keep fuel
        { sizeDecoder := plainChunkSizeParser, state := st, reader } [] = (.readError .eof, r', kept) ∧
      kept.bytes = content

theorem readsAll_of_wire {st last : σ} {payloads : List Bytes} {wire : Bytes}
    (hwire : Wire (PlainChunk plainChunkSizeParser) st payloads wire last) :
    ReadsAll (ρ := ρ) st wire (untilEmpty payloads).flatten := by
  intro reader hreader fuel hfuel
  have hawaits : ChunkStreamReader.Awaits last
      { sizeDecoder := plainChunkSizeParser, state := st, reader } payloads :=
    .fresh (Nat.succ_pos 1) rfl (hreader ▸ hwire)
  obtain ⟨r', kept, hcopy, hkept, -⟩ := ChunkStreamReader.copyInternal_spec fuel hawaits [] hfuel
  exact ⟨r', kept, hcopy, hkept⟩

theorem ReadsAll.eq {st : σ} {wire content content' : Bytes} (h : ReadsAll (ρ := ρ) st wire content)
    (h' : ReadsAll (ρ := ρ) st wire content') : content = content' := by
  have hwire : BufferedReader.content (ρ := ρ) { reader := [[{ bytes := wire }]] } = wire := by
    simp [BufferedReader.content, MultiBuffer.bytes]
  obtain ⟨r, kept, hcopy, hkept⟩ := h _ hwire _ (Nat.lt_succ_self _)
  obtain ⟨r', kept', hcopy', hkept'⟩ := h' _ hwire _ (Nat.lt_succ_self _)
  obtain ⟨-, rfl⟩ := Prod.mk.inj (Prod.mk.inj (hcopy.symm.trans hcopy')).2
  exact hkept.symm.trans hkept'

/-- **Where a chunk stream ends.** Multi-buffers with content are written as long as 32 bits hold their
lengths. However the wire is cut, a reader returns all their content before the end, and no chunk is empty,
exactly if no multi-buffer has empty buffers before a first one that is longer than a chunk. -/
theorem chunkStream_ends_iff (st : σ) (mbs : List (MultiBuffer ρ)) (hmbs : ∀ mb ∈ mbs, mb.bytes ≠ [])
    (hlen : ∀ mb ∈ mbs, mb.len < 2 ^ 31) :
    ∃ wire, ChunkStreamWriter.writeAll ⟨plainChunkSizeParser, st⟩ mbs = .ok wire ∧
      ((ReadsAll (ρ := ρ) st wire (mbs.flatMap MultiBuffer.bytes) ∧
          ∃ payloads last, Wire (PlainChunk plainChunkSizeParser) st payloads wire last ∧ [] ∉ payloads) ↔
        ∀ mb ∈ mbs, ¬Stalled mb) := by
  obtain ⟨payloads, wire, last, hwrite, hwire, hflatten, hfree, hshort⟩ :=
    ChunkStreamWriter.writeAll_spec (w := ⟨plainChunkSizeParser, st⟩) lawful_plain rfl trivial mbs hmbs
      hlen
  have hreads := readsAll_of_wire (ρ := ρ) hwire
  refine ⟨wire, hwrite, ?_, fun hnot => ⟨?_, payloads, last, hwire, hfree hnot⟩⟩
  · rintro ⟨hall, -⟩
    by_contra hsome
    push Not at hsome
    have hless := hshort hsome
    rw [hreads.eq hall] at hless
    exact absurd hless (lt_irrefl _)
  · have hnonempty : ∀ payload ∈ payloads, payload ≠ [] := by
      rintro payload hmem rfl
      exact hfree hnot hmem
    rwa [untilEmpty_eq_self hnonempty, hflatten] at hreads

theorem chunkStream_ends_two :
    ∃ wire, ChunkStreamWriter.writeAll ⟨plainChunkSizeParser, ()⟩ [[({ bytes := [] } : Buffer Unit),
        { bytes := [1, 2] }], [{ bytes := [3] }]] = .ok wire ∧ ReadsAll (ρ := Unit) () wire [1, 2, 3] := by
  obtain ⟨wire, hwrite, hiff⟩ := chunkStream_ends_iff ()
    [[({ bytes := [] } : Buffer Unit), { bytes := [1, 2] }], [{ bytes := [3] }]] (by decide) (by decide)
  refine ⟨wire, hwrite, (hiff.mpr ?_).1⟩
  intro mb hmb
  refine not_stalled_of_sizes fun b hb => ?_
  have hlen : b.len ≤ 2 := by
    revert b mb
    decide
  exact hlen.trans (by decide)

/-- An empty buffer before one of 8193 bytes. -/
theorem chunkStream_ends_early :
    ∃ wire, ChunkStreamWriter.writeAll ⟨plainChunkSizeParser, ()⟩
        [[({ bytes := [] } : Buffer Unit), { bytes := List.replicate 8193 1 }]] = .ok wire ∧
      ReadsAll (ρ := Unit) () wire [] := by
  have hmb : MultiBuffer.bytes [({ bytes := [] } : Buffer Unit), { bytes := List.replicate 8193 1 }] ≠ [] := by
    rw [bytes_cons, bytes_cons, List.nil_append]
    exact List.append_ne_nil_of_left_ne_nil (List.cons_ne_nil _ _) _
  have hlen : MultiBuffer.len [({ bytes := [] } : Buffer Unit), { bytes := List.replicate 8193 1 }] < 2 ^ 31 := by
    simp only [MultiBuffer.len, bytes_cons, List.length_append, List.length_replicate]
    decide
  have hstalled : Stalled [({ bytes := [] } : Buffer Unit), { bytes := List.replicate 8193 1 }] :=
    ⟨[_], _, [], rfl, List.cons_ne_nil _ _, by simp, by rw [Buffer.len, List.length_replicate]; decide⟩
  obtain ⟨payload, payloads, chunks, w', hwrite, -, -, hwire, hpayload, -⟩ :=
    ChunkStreamWriter.writeMultiBuffer_data (w := ⟨plainChunkSizeParser, ()⟩) lawful_plain rfl trivial hmb
      (ChunkStreamWriter.capacity_nonneg hlen)
  have hnil := hpayload.mpr hstalled
  rw [hnil] at hwire
  refine ⟨chunks ++ [], ?_, ?_⟩
  · simp only [ChunkStreamWriter.writeAll, hwrite, bind, Except.bind]
  · rw [List.append_nil]
    exact readsAll_of_wire hwire

end V2RootCore.Crypto
