import V2RootCore.Proof.Vmess.Body

/-!
# A dropped packet and those after it

A packet that is too large is dropped after its padding was drawn. The reader, which never hears of
it, draws that padding for the next packet, and from there on both ends are out of step.
-/

namespace V2RootCore.Vmess

open Go Buf Crypto AuthenticationWriter

variable {ρ : Type}

theorem lawful_shake : Lawful shakeSizeParser (some shakePadding) fun _ => True where
  sizeBytes_pos := by decide
  decode_encode st size _ := by
    obtain ⟨field, hencode, hdecode, hfield⟩ := shake_decode_encode st size
    exact ⟨field, _, hencode, hdecode, hfield, trivial⟩
  valid_nextPadding _ _ := trivial
  nextPadding_le st := (nextPadding_shake_lt st).le

/-- A writer of packets with masked sizes and padding. -/
def packetWriter (auth : AEADAuthenticator) (state : ParserState) (random : ByteStream) :
    AuthenticationWriter ParserState :=
  { auth, sizeParser := shakeSizeParser, padding := some shakePadding, state, transferType := .packet,
    random }

/-- The reader at the other end. -/
def packetReader (auth : AEADAuthenticator) (state : ParserState) (reader : List (MultiBuffer ρ)) :
    AuthenticationReader ParserState ρ :=
  { auth, sizeParser := shakeSizeParser, padding := some shakePadding, state, reader := { reader } }

theorem read_read (s : ByteStream) (n m : Nat) :
    ((s.read n).2.read m).2 = (s.read (n + m)).2 := by
  simp only [Crypto.ByteStream.read, Nat.add_assoc]

theorem next_shake (st : ParserState) : (next st).2.shake = (st.shake.read 2).2 := rfl

section Packets

/-- The packets whose sealed size fits in a buffer, with the padding that the writer draws for them. -/
def fitting (w : AuthenticationWriter ParserState) : MultiBuffer ρ → List Bytes
  | [] => []
  | b :: rest =>
      let w' := (w.sealChunk b.bytes).2
      if w.totalSize b.bytes ≤ size then b.bytes :: fitting w' rest else fitting w' rest

abbrev Shaking (aead : Cipher) (w : AuthenticationWriter ParserState) : Prop :=
  w.Good shakeSizeParser (some shakePadding) (fun _ => True) aead

variable {aead : Cipher} {w : AuthenticationWriter ParserState} {mb : MultiBuffer ρ}

theorem Shaking.totalSize_eq (h : Shaking aead w) (b : Buffer ρ) :
    w.totalSize b.bytes = 2 + (b.len + aead.overhead) + ((next w.state).1 % 64).toNat := by
  rw [totalSize, h.sizeParser_eq, h.padding_eq, h.aead_eq]
  rfl

theorem Shaking.totalSize_bounds (h : Shaking aead w) (b : Buffer ρ) :
    2 + (b.len + aead.overhead) ≤ w.totalSize b.bytes ∧
      w.totalSize b.bytes ≤ 2 + (b.len + aead.overhead) + 63 := by
  have hlt : ((next w.state).1 % 64).toNat < 64 := nextPadding_shake_lt w.state
  rw [h.totalSize_eq]
  omega

theorem sealedChunk_state_eq {auth auth' : AEADAuthenticator} {st st' : ParserState}
    {payload chunk : Bytes}
    (h : SealedChunk shakeSizeParser (some shakePadding) (auth, st) payload chunk (auth', st')) :
    st' = (next (next st).2).2 := by
  cases h with
  | intro _ hdecode => exact (congrArg Prod.snd hdecode).symm
  | stop _ hdecode => exact (congrArg Prod.snd hdecode).symm

theorem Shaking.fits (h : Shaking aead w) {b : Buffer ρ} (hb : b.bytes ≠ [])
    (hfits : w.totalSize b.bytes ≤ size) (rest : MultiBuffer ρ) :
    ∃ chunk w', Shaking aead w' ∧ w'.state = (next (next w.state).2).2 ∧
      SealedChunk shakeSizeParser (some shakePadding) (w.auth, w.state) b.bytes chunk
        (w'.auth, w'.state) ∧
      (w.writePacket (b :: rest)).1 = chunk ++ (w'.writePacket rest).1 ∧
      fitting w (b :: rest) = b.bytes :: fitting w' rest := by
  obtain ⟨chunk, w', hseal, hgood, -, hchunk⟩ :=
    sealChunk_of_fits lawful_shake h hfits
  have hlen : b.len ≠ 0 := by simpa [Buffer.len] using hb
  refine ⟨chunk, w', hgood, sealedChunk_state_eq hchunk, hchunk, ?_, ?_⟩
  · simp only [writePacket, hlen, if_false, hseal]
  · simp only [fitting, hfits, if_true, hseal]

theorem Shaking.too_large (h : Shaking aead w) {b : Buffer ρ} (hb : b.bytes ≠ [])
    (hsize : size < w.totalSize b.bytes) (rest : MultiBuffer ρ) :
    ∃ w', Shaking aead w' ∧ w'.state = (next w.state).2 ∧ w'.auth = w.auth ∧
      (w.writePacket (b :: rest)).1 = (w'.writePacket rest).1 ∧
      fitting w (b :: rest) = fitting w' rest := by
  have hseal := w.sealChunk_of_too_large hsize
  have hlen : b.len ≠ 0 := by simpa [Buffer.len] using hb
  refine ⟨{ w with state := (nextPadding w.padding w.state).2 },
    ⟨h.sizeParser_eq, h.padding_eq, h.aead_eq, trivial, h.ready⟩, ?_, rfl, ?_, ?_⟩
  · rw [h.padding_eq]
    rfl
  · simp only [writePacket, hlen, if_false, hseal]
  · simp only [fitting, not_le.mpr hsize, if_false, hseal]

theorem Shaking.none_fits (h : Shaking aead w)
    (hmb : ∀ b ∈ mb, b.bytes ≠ [] ∧ size < 2 + (b.len + aead.overhead)) (rest : MultiBuffer ρ) :
    ∃ w', Shaking aead w' ∧ w'.state.shake = (w.state.shake.read (2 * mb.length)).2 ∧
      w'.auth = w.auth ∧
      (w.writePacket (mb ++ rest)).1 = (w'.writePacket rest).1 ∧
      fitting w (mb ++ rest) = fitting w' rest := by
  induction mb generalizing w with
  | nil => exact ⟨w, h, rfl, rfl, rfl, rfl⟩
  | cons b mb ih =>
      obtain ⟨hb, hsize⟩ := hmb b List.mem_cons_self
      obtain ⟨w', h', hstate, hauth, hwrite, hfitting⟩ :=
        h.too_large hb (hsize.trans_le (h.totalSize_bounds b).1) (mb ++ rest)
      obtain ⟨w'', h'', hshake, hauth', hwrite', hfitting'⟩ :=
        ih h' fun b' hb' => hmb b' (List.mem_cons_of_mem _ hb')
      refine ⟨w'', h'', ?_, hauth'.trans hauth, hwrite.trans hwrite', hfitting.trans hfitting'⟩
      rw [hshake, hstate, next_shake, read_read, List.length_cons]
      congr 2
      omega

theorem Shaking.all_fit (h : Shaking aead w)
    (hmb : ∀ b ∈ mb, b.bytes ≠ [] ∧ 2 + (b.len + aead.overhead) + 63 ≤ size) (rest : MultiBuffer ρ) :
    ∃ chunks w', Shaking aead w' ∧ w'.state.shake = (w.state.shake.read (4 * mb.length)).2 ∧
      Wire (SealedChunk shakeSizeParser (some shakePadding)) (w.auth, w.state) (mb.map Buffer.bytes)
        chunks (w'.auth, w'.state) ∧
      (w.writePacket (mb ++ rest)).1 = chunks ++ (w'.writePacket rest).1 ∧
      fitting w (mb ++ rest) = mb.map Buffer.bytes ++ fitting w' rest := by
  induction mb generalizing w with
  | nil => exact ⟨[], w, h, rfl, .nil _, rfl, rfl⟩
  | cons b mb ih =>
      obtain ⟨hb, hsize⟩ := hmb b List.mem_cons_self
      obtain ⟨chunk, w', h', hstate, hchunk, hwrite, hfitting⟩ :=
        h.fits hb ((h.totalSize_bounds b).2.trans hsize) (mb ++ rest)
      obtain ⟨chunks, w'', h'', hshake, hwire, hwrite', hfitting'⟩ :=
        ih h' fun b' hb' => hmb b' (List.mem_cons_of_mem _ hb')
      refine ⟨chunk ++ chunks, w'', h'', ?_, .cons hchunk hwire, ?_, ?_⟩
      · rw [hshake, hstate, next_shake, next_shake, read_read, read_read,
          List.length_cons]
        congr 2
        omega
      · rw [List.cons_append, hwrite, hwrite', List.append_assoc]
      · rw [List.cons_append, hfitting, hfitting', List.map_cons, List.cons_append]

/-- No packet that may be dropped stands before one that may fit. -/
def Ordered (overhead : Nat) (mb : MultiBuffer ρ) : Prop :=
  mb.Pairwise fun b b' => ¬(size < 2 + (b.len + overhead) + 63 ∧ 2 + (b'.len + overhead) ≤ size)

theorem Shaking.wire (h : Shaking aead w) (hmb : ∀ b ∈ mb, b.bytes ≠ [])
    (hordered : Ordered aead.overhead mb) :
    ∃ last, Wire (SealedChunk shakeSizeParser (some shakePadding)) (w.auth, w.state) (fitting w mb)
      (w.writePacket mb).1 last := by
  induction mb generalizing w with
  | nil => exact ⟨_, .nil _⟩
  | cons b mb ih =>
      obtain ⟨hhead, htail⟩ := List.pairwise_cons.mp hordered
      have hb := hmb b List.mem_cons_self
      have hmb' : ∀ b' ∈ mb, b'.bytes ≠ [] := fun b' hb' => hmb b' (List.mem_cons_of_mem _ hb')
      by_cases hfits : w.totalSize b.bytes ≤ size
      · obtain ⟨chunk, w', h', -, hchunk, hwrite, hfitting⟩ := h.fits hb hfits mb
        obtain ⟨last, hwire⟩ := ih h' hmb' htail
        exact ⟨last, by rw [hwrite, hfitting]; exact .cons hchunk hwire⟩
      · obtain ⟨w', h', -, -, hwrite, hfitting⟩ := h.too_large hb (not_le.mp hfits) mb
        have hnone : ∀ b' ∈ mb, b'.bytes ≠ [] ∧ size < 2 + (b'.len + aead.overhead) := by
          intro b' hb'
          refine ⟨hmb' b' hb', not_le.mp fun hle => hhead b' hb' ⟨?_, hle⟩⟩
          exact (not_le.mp hfits).trans_le (h.totalSize_bounds b).2
        obtain ⟨w'', -, -, -, hwrite', hfitting'⟩ := h'.none_fits hnone []
        rw [List.append_nil] at hwrite' hfitting'
        exact ⟨_, by rw [hwrite, hfitting, hwrite', hfitting']; exact .nil _⟩

theorem exists_late_of_not_ordered {overhead : Nat} (h : ¬Ordered overhead mb) :
    ∃ before b dropped late after, mb = before ++ b :: (dropped ++ late :: after) ∧
      (∀ b ∈ before, 2 + (b.len + overhead) + 63 ≤ size) ∧ size < 2 + (b.len + overhead) + 63 ∧
      (∀ b ∈ dropped, size < 2 + (b.len + overhead)) ∧ 2 + (late.len + overhead) ≤ size := by
  induction mb with
  | nil => exact absurd .nil h
  | cons b mb ih =>
      by_cases hb : size < 2 + (b.len + overhead) + 63
      · -- The first packet after it that may fit.
        cases hfind : mb.find? fun b' => 2 + (b'.len + overhead) ≤ size with
        | none =>
            have hlate : ∀ b' ∈ mb, ¬2 + (b'.len + overhead) ≤ size := by
              simpa using List.find?_eq_none.mp hfind
            refine absurd (List.pairwise_cons.mpr ⟨fun b' hb' hand => hlate b' hb' hand.2, ?_⟩) h
            exact List.pairwise_of_forall_mem_list fun _ _ b' hb' hand => hlate b' hb' hand.2
        | some late =>
            obtain ⟨hlate, dropped, after, rfl, hdropped⟩ := List.find?_eq_some_iff_append.mp hfind
            refine ⟨[], b, dropped, late, after, rfl, by simp, hb, ?_, by simpa using hlate⟩
            simpa using hdropped
      · have hnot : ¬Ordered overhead mb := by
          intro hordered
          exact h (List.pairwise_cons.mpr ⟨fun b' _ hlate => hb hlate.1, hordered⟩)
        obtain ⟨before, b', dropped, late, after, rfl, hbefore, hrest⟩ := ih hnot
        refine ⟨b :: before, b', dropped, late, after, rfl, ?_, hrest⟩
        simpa using ⟨not_lt.mp hb, hbefore⟩

end Packets

section Groups

theorem sealChunk_transferType (w : AuthenticationWriter ParserState) (b : Bytes) :
    (w.sealChunk b).2.transferType = w.transferType := by
  simp only [sealChunk]
  split_ifs
  · rfl
  · split
    · rfl
    · split <;> rfl

theorem writePacket_append (w : AuthenticationWriter ParserState) (mb mb' : MultiBuffer ρ) :
    w.writePacket (mb ++ mb') =
      ((w.writePacket mb).1 ++ ((w.writePacket mb).2.writePacket mb').1,
        ((w.writePacket mb).2.writePacket mb').2) := by
  induction mb generalizing w with
  | nil => rfl
  | cons b mb ih =>
      simp only [List.cons_append, writePacket]
      split_ifs
      · exact ih w
      · rcases w.sealChunk b.bytes with ⟨_ | chunk, w'⟩
        · exact ih w'
        · simp only [ih w', List.append_assoc]

theorem writePacket_transferType (w : AuthenticationWriter ParserState) (mb : MultiBuffer ρ) :
    (w.writePacket mb).2.transferType = w.transferType := by
  induction mb generalizing w with
  | nil => rfl
  | cons b mb ih =>
      have hseal := sealChunk_transferType w b.bytes
      simp only [writePacket]
      split_ifs
      · exact ih w
      · rcases hchunk : w.sealChunk b.bytes with ⟨_ | chunk, w'⟩ <;>
          (rw [hchunk] at hseal; exact (ih w').trans hseal)

theorem writeAll_groups (groups : List (MultiBuffer ρ))
    (hgroups : ∀ mb ∈ groups, mb ≠ [] ∧ ∀ b ∈ mb, b.bytes ≠ [])
    {w : AuthenticationWriter ParserState} (hpacket : w.transferType = .packet) :
    (BodyWriter.authentication w).writeAll groups =
      (.ok (w.writePacket groups.flatten).1, .authentication (w.writePacket groups.flatten).2) := by
  induction groups generalizing w with
  | nil => rfl
  | cons mb groups ih =>
      obtain ⟨hne, hmb⟩ := hgroups mb List.mem_cons_self
      have hempty : mb.isEmpty = false := by
        obtain ⟨b, rest, rfl⟩ := List.exists_cons_of_ne_nil hne
        simp [MultiBuffer.isEmpty_eq_false_iff, hmb b List.mem_cons_self]
      have hwrites := ih (fun mb' hmb' => hgroups mb' (List.mem_cons_of_mem _ hmb'))
        ((writePacket_transferType w mb).trans hpacket)
      simp only [BodyWriter.writeAll, BodyWriter.writeMultiBuffer, writeMultiBuffer,
        hempty, Bool.false_eq_true, if_false, hpacket, hwrites, List.flatten_cons,
        writePacket_append w mb groups.flatten]

end Groups

/-- Reading returns the packets that fit, one in a buffer, and no other. -/
def Survive (auth : AEADAuthenticator) (state : ParserState) (groups : List (MultiBuffer ρ)) : Prop :=
  ∀ random, ∃ wire w', (BodyWriter.authentication (packetWriter auth state random)).writeAll groups =
      (.ok wire, w') ∧
    ∀ reader : List (MultiBuffer ρ), reader.flatMap MultiBuffer.bytes = wire →
      ∃ bound, ∀ fuel, bound ≤ fuel → ∃ r',
        copyInternal AuthenticationReader.readMultiBuffer keep fuel (packetReader auth state reader) [] =
          (.readError .eof, r', (fitting (packetWriter auth state random) groups.flatten).map asBuffer)

theorem packetReader_returns {auth : AEADAuthenticator} {state : ParserState}
    {reader : List (MultiBuffer ρ)} {payloads : List Bytes} {last : AEADAuthenticator × ParserState}
    (hwire : Wire (SealedChunk shakeSizeParser (some shakePadding)) (auth, state) payloads
      (reader.flatMap MultiBuffer.bytes) last) {fuel : Nat} (hfuel : payloads.length < fuel) :
    ∃ r', copyInternal AuthenticationReader.readMultiBuffer keep fuel (packetReader auth state reader) [] =
      (.readError .eof, r', (untilEmpty payloads).map asBuffer) := by
  have hawaits : (packetReader auth state reader).Awaits last payloads :=
    .fresh rfl Nat.two_pos rfl hwire
  obtain ⟨r', hcopy, -⟩ := AuthenticationReader.copyInternal_spec fuel hawaits [] hfuel
  exact ⟨r', hcopy⟩

theorem mem_fitting {w : AuthenticationWriter ParserState} {mb : MultiBuffer ρ} {payload : Bytes}
    (h : payload ∈ fitting w mb) : ∃ b ∈ mb, b.bytes = payload := by
  induction mb generalizing w with
  | nil => cases h
  | cons b mb ih =>
      simp only [fitting] at h
      split_ifs at h
      · obtain rfl | h := List.mem_cons.mp h
        · exact ⟨b, List.mem_cons_self, rfl⟩
        · obtain ⟨b', hb', hbytes⟩ := ih h
          exact ⟨b', List.mem_cons_of_mem _ hb', hbytes⟩
      · obtain ⟨b', hb', hbytes⟩ := ih h
        exact ⟨b', List.mem_cons_of_mem _ hb', hbytes⟩

theorem bytes_ne_nil_of_mem {groups : List (MultiBuffer ρ)}
    (hgroups : ∀ mb ∈ groups, mb ≠ [] ∧ ∀ b ∈ mb, b.bytes ≠ []) {b : Buffer ρ}
    (hb : b ∈ groups.flatten) : b.bytes ≠ [] := by
  obtain ⟨mb, hmb, hmem⟩ := List.mem_flatten.mp hb
  exact (hgroups mb hmb).2 b hmem

section Streams

/-- A stream by the numbers that are read from it. -/
def streamOf (draws : Nat → UInt16) (i : Nat) : UInt8 :=
  if i % 2 = 0 then UInt8.ofNat ((draws (i / 2)).toNat / 256) else UInt8.ofNat (draws (i / 2)).toNat

theorem next_streamOf {draws : Nat → UInt16} {st : ParserState} {k : Nat}
    (hst : st.shake = { byte := streamOf draws, used := 2 * k }) :
    (next st).1 = draws k ∧ (next st).2.shake = { byte := streamOf draws, used := 2 * (k + 1) } := by
  have hbytes : (st.shake.read 2).1 = putUint16 (draws k) := by
    have hodd : (2 * k + 1) / 2 = k := by omega
    simp [ByteStream.read, hst, List.range_succ, streamOf, putUint16, hodd]
  refine ⟨?_, ?_⟩
  · change uint16 (st.shake.read 2).1 = draws k
    rw [hbytes, uint16_putUint16]
  · simp only [next, ByteStream.read, hst]
    congr 1

/-- The numbers with which a late packet looks like the end: the padding of the dropped packet, and a
mask that gives the size of a chunk with that padding and nothing else. -/
def misleading (overhead before dropped late : Nat) (k : Nat) : UInt16 :=
  if k = 2 * before then 63
  else if k = 2 * before + dropped + 2 then
    UInt16.ofNat (late + overhead) ^^^ (UInt16.ofNat overhead + 63)
  else 0

variable {auth auth' : AEADAuthenticator} {st st' : ParserState}

theorem uint16_field {payload chunk : Bytes}
    (h : SealedChunk shakeSizeParser (some shakePadding) (auth, st) payload chunk (auth', st'))
    (hpayload : payload ≠ []) :
    ∃ field rest, chunk = field ++ rest ∧ field.length = 2 ∧
      uint16 field = (next (next st).2).1 ^^^
        UInt16.ofNat (payload.length + auth.aead.overhead + ((next st).1 % 64).toNat) := by
  cases h with
  | stop => exact absurd rfl hpayload
  | @intro _ _ _ _ _ field sealed paddingBytes hfield hdecode _ _ hpadding =>
      refine ⟨field, _, rfl, hfield, ?_⟩
      have hmasked : (next (next st).2).1 ^^^ uint16 field =
          UInt16.ofNat (payload.length + auth.aead.overhead + paddingBytes.length) :=
        Except.ok.inj (congrArg Prod.fst hdecode)
      have hlength : paddingBytes.length = ((next st).1 % 64).toNat := hpadding
      rw [← hlength, ← hmasked, ← UInt16.xor_assoc, UInt16.xor_self, UInt16.zero_xor]

theorem stop_of_field {field rest : Bytes} (hfield : field.length = 2)
    (hsize : (next (next st).2).1 ^^^ uint16 field =
      UInt16.ofNat auth.aead.overhead + (next st).1 % 64) :
    SealedChunk shakeSizeParser (some shakePadding) (auth, st) [] (field ++ rest)
      (auth, (next (next st).2).2) := by
  refine .stop hfield ?_
  change (Except.ok ((next (next st).2).1 ^^^ uint16 field), (next (next st).2).2) = _
  rw [hsize]
  rfl

end Streams

section Late

variable {auth : AEADAuthenticator} {groups : List (MultiBuffer ρ)}
  {before dropped after : MultiBuffer ρ} {b late : Buffer ρ}

/-- The state in which both ends start. -/
def misleadingState (auth : AEADAuthenticator) (before dropped late : Nat) : ParserState where
  shake := { byte := streamOf (misleading auth.aead.overhead before dropped late) }
  lengthAuth := auth

theorem masked_stop (overhead late : Nat) :
    0 ^^^ (UInt16.ofNat (late + overhead) ^^^ (UInt16.ofNat overhead + 63) ^^^
      UInt16.ofNat (late + overhead + (0 % 64 : UInt16).toNat)) = UInt16.ofNat overhead + 63 % 64 := by
  have hzero : (0 % 64 : UInt16).toNat = 0 := rfl
  have hpadding : (63 % 64 : UInt16) = 63 := rfl
  rw [hzero, hpadding, Nat.add_zero, UInt16.zero_xor, UInt16.xor_comm (UInt16.ofNat (late + overhead)),
    UInt16.xor_assoc, UInt16.xor_self, UInt16.xor_zero]

variable (hready : auth.Ready)
  (hbefore : ∀ b ∈ before, 2 + (b.len + auth.aead.overhead) + 63 ≤ size)
  (hb : size < 2 + (b.len + auth.aead.overhead) + 63)
  (hdropped : ∀ b ∈ dropped, size < 2 + (b.len + auth.aead.overhead))
  (hlate : 2 + (late.len + auth.aead.overhead) ≤ size)

include hready hbefore hb hdropped hlate

theorem late_ends (random : ByteStream)
    (hbytes : ∀ b' ∈ before ++ b :: (dropped ++ late :: after), b'.bytes ≠ []) :
    let state := misleadingState auth before.length dropped.length late.len
    let w := packetWriter auth state random
    let mb := before ++ b :: (dropped ++ late :: after)
    (∃ last, Wire (SealedChunk shakeSizeParser (some shakePadding)) (auth, state)
      (before.map Buffer.bytes ++ [[]]) (w.writePacket mb).1 last) ∧
      before.length < (fitting w mb).length := by
  intro state w mb
  have h : Shaking auth.aead w := ⟨rfl, rfl, rfl, trivial, hready⟩
  let draws := misleading auth.aead.overhead before.length dropped.length late.len
  -- Both ends have sent and read what comes before.
  obtain ⟨chunks, w₁, h₁, hshake₁, hwire, hwrite₁, hfitting₁⟩ := h.all_fit
    (fun b' hb' => ⟨hbytes b' (by simp [hb']), hbefore b' hb'⟩) (b :: (dropped ++ late :: after))
  have hstate₁ : w₁.state.shake = { byte := streamOf draws, used := 2 * (2 * before.length) } := by
    rw [hshake₁, show w.state.shake = { byte := streamOf draws } from rfl]
    simp only [ByteStream.read, ByteStream.mk.injEq, true_and]
    omega
  obtain ⟨hpadding₁, hnext₁⟩ := next_streamOf hstate₁
  obtain ⟨hmask₁, -⟩ := next_streamOf hnext₁
  have hdraw₁ : draws (2 * before.length) = 63 := by simp [draws, misleading]
  have hdraw₂ : draws (2 * before.length + 1) = 0 := by
    simp only [draws, misleading]
    rw [if_neg (by omega), if_neg (by omega)]
  -- The writer has drawn padding for the packets that it dropped.
  obtain ⟨w₂, h₂, hstate₂, hauth₂, hwrite₂, hfitting₂⟩ := h₁.too_large (hbytes b (by simp))
    (by rw [h₁.totalSize_eq, hpadding₁, hdraw₁]; exact hb) (dropped ++ late :: after)
  obtain ⟨w₃, h₃, hshake₃, hauth₃, hwrite₃, hfitting₃⟩ := h₂.none_fits
    (fun b' hb' => ⟨hbytes b' (by simp [hb']), hdropped b' hb'⟩) (late :: after)
  have hstate₃ : w₃.state.shake =
      { byte := streamOf draws, used := 2 * (2 * before.length + 1 + dropped.length) } := by
    rw [hshake₃, hstate₂, hnext₁]
    simp only [ByteStream.read, ByteStream.mk.injEq, true_and]
    omega
  obtain ⟨hpadding₃, hnext₃⟩ := next_streamOf hstate₃
  obtain ⟨hmask₃, -⟩ := next_streamOf hnext₃
  have hdraw₃ : draws (2 * before.length + 1 + dropped.length) = 0 := by
    simp only [draws, misleading]
    rw [if_neg (by omega), if_neg (by omega)]
  have hdraw₄ : draws (2 * before.length + 1 + dropped.length + 1) =
      UInt16.ofNat (late.len + auth.aead.overhead) ^^^ (UInt16.ofNat auth.aead.overhead + 63) := by
    simp only [draws, misleading]
    rw [if_neg (by omega), if_pos (by omega)]
  obtain ⟨chunk, w₄, h₄, -, hchunk, hwrite₄, hfitting₄⟩ := h₃.fits (hbytes late (by simp))
    (by rw [h₃.totalSize_eq, hpadding₃, hdraw₃]; simpa using hlate) after
  obtain ⟨field, rest, rfl, hfield, hvalue⟩ := uint16_field hchunk (hbytes late (by simp))
  have hstop : SealedChunk shakeSizeParser (some shakePadding) (w₁.auth, w₁.state) []
      (field ++ (rest ++ (w₄.writePacket after).1)) (w₁.auth, (next (next w₁.state).2).2) := by
    refine stop_of_field hfield ?_
    rw [hmask₁, hdraw₂, hpadding₁, hdraw₁, hvalue, hmask₃, hdraw₄, hpadding₃, hdraw₃, h₃.aead_eq,
      h₁.aead_eq]
    exact masked_stop _ _
  refine ⟨⟨(w₁.auth, (next (next w₁.state).2).2), ?_⟩, ?_⟩
  · rw [hwrite₁, hwrite₂, hwrite₃, hwrite₄, List.append_assoc]
    exact hwire.append (.single hstop)
  · rw [hfitting₁, hfitting₂, hfitting₃, hfitting₄]
    simp

theorem not_survive_of_late (hgroups : ∀ mb ∈ groups, mb ≠ [] ∧ ∀ b ∈ mb, b.bytes ≠ [])
    (hflatten : groups.flatten = before ++ b :: (dropped ++ late :: after)) :
    ¬Survive auth (misleadingState auth before.length dropped.length late.len) groups := by
  intro hsurvive
  obtain ⟨wire, w', hwrite, hreads⟩ := hsurvive { byte := fun _ => 0 }
  obtain ⟨⟨last, hwire⟩, hmore⟩ := late_ends hready hbefore hb hdropped hlate { byte := fun _ => 0 }
    fun b' hb' => bytes_ne_nil_of_mem hgroups (hflatten ▸ hb')
  rw [writeAll_groups groups hgroups rfl, hflatten] at hwrite
  rw [Except.ok.inj (congrArg Prod.fst hwrite)] at hwire
  have hreader : [[({ bytes := wire } : Buffer ρ)]].flatMap MultiBuffer.bytes = wire := by simp
  obtain ⟨bound, hread⟩ := hreads _ hreader
  rw [← hreader] at hwire
  obtain ⟨r, hcopy⟩ := packetReader_returns hwire (show _ < bound + before.length + 2 by simp)
  obtain ⟨r', hcopy'⟩ := hread (bound + before.length + 2) (by omega)
  have hkept := congrArg (fun result => result.2.2.length) (hcopy.symm.trans hcopy')
  have hne : ∀ payload ∈ before.map Buffer.bytes, payload ≠ [] := by
    intro payload hpayload
    obtain ⟨b', hb', rfl⟩ := List.mem_map.mp hpayload
    exact bytes_ne_nil_of_mem hgroups (by simp [hflatten, hb'])
  rw [untilEmpty_append hne, hflatten] at hkept
  simp only [untilEmpty, List.takeWhile_cons, ne_eq, not_true_eq_false, decide_false,
    Bool.false_eq_true, if_false, List.append_nil, List.length_map] at hkept
  omega

end Late

/-- **The packets that fit arrive, whatever the stream, exactly when none of them may come after a
dropped one.** -/
theorem packets_survive_iff {auth : AEADAuthenticator} (hready : auth.Ready)
    {groups : List (MultiBuffer ρ)} (hgroups : ∀ mb ∈ groups, mb ≠ [] ∧ ∀ b ∈ mb, b.bytes ≠ []) :
    (∀ state, Survive auth state groups) ↔ Ordered auth.aead.overhead groups.flatten := by
  refine ⟨fun hsurvive => ?_, fun hordered state random => ?_⟩
  · by_contra hnot
    obtain ⟨before, b, dropped, late, after, hflatten, hbefore, hb, hdropped, hlate⟩ :=
      exists_late_of_not_ordered hnot
    exact not_survive_of_late hready hbefore hb hdropped hlate hgroups hflatten (hsurvive _)
  · have hbytes : ∀ b ∈ groups.flatten, b.bytes ≠ [] := fun b hb => bytes_ne_nil_of_mem hgroups hb
    have h : Shaking auth.aead (packetWriter auth state random) := ⟨rfl, rfl, rfl, trivial, hready⟩
    obtain ⟨last, hwire⟩ := h.wire hbytes hordered
    refine ⟨_, _, writeAll_groups groups hgroups rfl, fun reader hreader => ?_⟩
    rw [← hreader] at hwire
    refine ⟨(fitting (packetWriter auth state random) groups.flatten).length + 1, fun fuel hfuel => ?_⟩
    obtain ⟨r', hcopy⟩ := packetReader_returns hwire hfuel
    have hne : ∀ payload ∈ fitting (packetWriter auth state random) groups.flatten, payload ≠ [] := by
      intro payload hpayload
      obtain ⟨b, hb, rfl⟩ := mem_fitting hpayload
      exact hbytes b hb
    rw [untilEmpty_eq_self hne] at hcopy
    exact ⟨r', hcopy⟩

/-- An authenticator whose key and IV are zero. -/
def zeroAuthenticator : AEADAuthenticator :=
  newAuthenticator (Crypto.tagging (List.replicate 16 0)) (List.replicate 16 0) 12

theorem zeroAuthenticator_ready : zeroAuthenticator.Ready :=
  ready_newAuthenticator rfl (by decide)

/-- A packet of zeros. -/
def zeros (n : Nat) : Buffer Unit := { bytes := List.replicate n 0 }

theorem len_zeros (n : Nat) : (zeros n).len = n := List.length_replicate

theorem bytes_zeros_ne {n : Nat} (hn : n ≠ 0) : (zeros n).bytes ≠ [] := by
  rw [zeros, ne_eq, List.replicate_eq_nil_iff]
  exact hn

/-- A packet that is always dropped comes last. -/
theorem packets_survive_ordered :
    Survive zeroAuthenticator (misleadingState zeroAuthenticator 0 0 1) [[zeros 1, zeros 3000], [zeros 8192]] := by
  refine (packets_survive_iff zeroAuthenticator_ready ?_).mpr ?_ _
  · have hne : (zeros 1).bytes ≠ [] ∧ (zeros 3000).bytes ≠ [] ∧ (zeros 8192).bytes ≠ [] :=
      ⟨bytes_zeros_ne (by decide), bytes_zeros_ne (by decide), bytes_zeros_ne (by decide)⟩
    simpa only [List.forall_mem_cons, List.not_mem_nil, false_imp_iff, implies_true, ne_eq, List.cons_ne_nil,
      not_false_eq_true, true_and, and_true, and_assoc] using hne
  · simp only [Ordered, List.flatten_cons, List.flatten_nil, List.cons_append, List.nil_append,
      List.pairwise_cons, List.forall_mem_cons, len_zeros]
    decide

/-- After a packet of 8192 bytes, which is always dropped, a packet of one byte is lost as well. -/
theorem dropped_packet_hides_next :
    ¬Survive zeroAuthenticator (misleadingState zeroAuthenticator 0 0 1) [[zeros 8192, zeros 1]] := by
  have hgroups : ∀ mb ∈ [[zeros 8192, zeros 1]], mb ≠ [] ∧ ∀ b ∈ mb, b.bytes ≠ [] := by
    simp only [List.mem_singleton, forall_eq, ne_eq, List.cons_ne_nil, not_false_eq_true, true_and]
    rintro b (_ | ⟨_, _ | ⟨_, ⟨⟩⟩⟩)
    · exact bytes_zeros_ne (by decide)
    · exact bytes_zeros_ne (by decide)
  exact @not_survive_of_late Unit zeroAuthenticator _ [] [] [] (zeros 8192) (zeros 1)
    zeroAuthenticator_ready (fun b hb => absurd hb List.not_mem_nil) (by rw [len_zeros]; decide)
    (fun b hb => absurd hb List.not_mem_nil) (by decide) hgroups rfl

end V2RootCore.Vmess
