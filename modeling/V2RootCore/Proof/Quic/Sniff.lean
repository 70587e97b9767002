import V2RootCore.Proof.Quic.Frames
import V2RootCore.Proof.Tls.Sniff

/-!
# When the sniffer for QUIC panics

The sample of the header protection lies four bytes behind the header and has sixteen bytes. It is taken
without a look at how many bytes there are.
-/

namespace V2RootCore.Quic

open Go Buf RawBuffer Tls

/-- The next packet is in range: an initial packet has room for the sample behind its header, and so are
the frames in it. -/
def PacketInRange [VarintReader] (suite : Suite) (s : Crypto × Bytes) : Prop :=
  ∀ header buffer, readHeader s.2 (fromBytes s.2) = .ok (header, buffer) →
    header.isQuicInitial = true → header.packetLen ≤ buffer.len →
    20 ≤ buffer.len ∧ ∀ decrypted,
      decrypt suite s.2 header (s.2.length - buffer.len) buffer = .ok decrypted →
      ∀ s', Reaches frame (s.1, fromBytes decrypted) s' → FrameInRange s'

section Header

variable {b : Bytes}

theorem reads_readConnID : Reads readConnID fun _ => True :=
  reads_readByte.bind fun _ _ => reads_readBytes (Int.natCast_nonneg _)

variable [VarintReader]

theorem reads_readToken (hb : b.length < 2 ^ 31) (isQuicInitial : Bool) :
    Reads (readToken isQuicInitial b) fun _ => True := by
  have hvarint : Reads (readVarint.orFail errNotQuic) fun _ => True := reads_readVarint.orFail nofun
  refine .ite (fun _ => hvarint.bind fun tokenLen _ => ?_) fun _ => .pure trivial
  refine .ite (fun _ => .throw nofun) fun hle => ?_
  have hlen : int32 tokenLen = tokenLen := int32_eq (by omega) (by omega)
  have hbytes : Reads ((readBytes (int32 tokenLen)).orFail errNotQuic) fun _ => True := by
    rw [hlen]
    exact (reads_readBytes (Int.natCast_nonneg _)).orFail nofun
  exact hbytes.bind fun _ _ => .pure trivial

theorem reads_readHeader (hb : b.length < 2 ^ 31) :
    Reads (readHeader b) fun header => 4 ≤ header.packetLen := by
  have hbyte : Reads (readByte.orFail errNotQuic) fun _ => True := reads_readByte.orFail nofun
  have hversion : Reads ((readBytes 4).orFail errNotQuic) fun _ => True :=
    (reads_readBytes (by norm_num)).orFail nofun
  have hconnID : Reads (readConnID.orFail errNotQuic) fun _ => True := reads_readConnID.orFail nofun
  have hvarint : Reads (readVarint.orFail errNotQuic) fun _ => True := reads_readVarint.orFail nofun
  refine hbyte.bind fun typeByte _ => .ite (fun _ => .throw nofun) fun _ => ?_
  refine hversion.bind fun vb _ => .ite (fun _ => .throw nofun) fun _ => ?_
  refine .ite (fun _ => .throw nofun) fun _ => hconnID.bind fun destConnID _ => ?_
  refine hconnID.bind fun _ _ => (reads_readToken hb _).bind fun _ _ => ?_
  refine hvarint.bind fun packetLen _ => .ite (fun _ => .throw nofun) fun hle => .pure ?_
  exact not_lt.mp hle

theorem packetLen_of_readHeader {buffer : RawBuffer} {result : Header × RawBuffer}
    (h : readHeader b buffer = .ok result) : 4 ≤ result.1.packetLen := by
  obtain ⟨first, -, h⟩ := exists_of_bind h
  split_ifs at h
  · cases h
  · obtain ⟨version, -, h⟩ := exists_of_bind h
    dsimp only at h
    split_ifs at h
    · cases h
    · cases h
    · obtain ⟨dest, -, h⟩ := exists_of_bind h
      obtain ⟨source, -, h⟩ := exists_of_bind h
      obtain ⟨token, -, h⟩ := exists_of_bind h
      obtain ⟨packetLen, -, h⟩ := exists_of_bind h
      split_ifs at h with hlt
      · cases h
      · obtain rfl := Except.ok.inj h
        exact not_lt.mp hlt

theorem len_of_readHeader {header : Header} {buffer : RawBuffer}
    (h : readHeader b (fromBytes b) = .ok (header, buffer)) : buffer.len ≤ b.length := by
  by_cases hb : b.length < 2 ^ 31
  · have hafter := ((reads_readHeader hb _ (sound_fromBytes hb).1).2 _ h).2
    exact hafter.len.trans_eq (sound_fromBytes hb).2
  · have hrange := (int32_range (buffer.stop - buffer.start)).2
    change buffer.len < _ at hrange
    omega

end Header

section Decrypt

variable {b : Bytes} {hdrLen : Int} {mask : Bytes}

theorem safe_xorByteAt {i : Int} {x : UInt8} (hlow : 0 ≤ i) (hhigh : i < b.length) :
    Safe (xorByteAt b i x) fun b' => b'.length = b.length :=
  (safe_byteAt hlow hhigh).bind fun _ _ => safe_setByteAt hlow hhigh

theorem safe_xorPacketNumber (hmask : mask.length = 16) (hlow : 0 ≤ hdrLen)
    (hhigh : hdrLen + 4 ≤ b.length) {n : Nat} (hn : n ≤ 4) :
    Safe (xorPacketNumber hdrLen mask n b) fun b' => b'.length = b.length := by
  induction n with
  | zero => exact .ok rfl
  | succ n ih =>
      refine (ih (by omega)).bind fun b' hb' => ?_
      refine (safe_byteAt (by omega) (by omega)).bind fun x _ => ?_
      exact (safe_xorByteAt (by omega) (by omega)).mono fun _ h => h.trans hb'

theorem packetNumberLength_le (x : UInt8) : (x &&& 0x3).toNat + 1 ≤ 4 := by
  have hle : x.toNat &&& 3 ≤ 3 := Nat.and_le_right
  rw [UInt8.toNat_and]
  exact Nat.succ_le_succ hle

variable {suite : Suite} {header : Header} {buffer : RawBuffer}

theorem decrypt_of_short (hshort : b.length < hdrLen + 20) :
    decrypt suite b header hdrLen buffer = .error .panicked := by
  obtain ⟨cache, hextend, -⟩ := exists_extend_new (show 16 ≤ 8192 by norm_num)
  rw [Nat.cast_ofNat] at hextend
  rw [decrypt, hextend]
  change (slice b (hdrLen + 4) (hdrLen + 4 + 16) >>= _) = _
  rw [slice, if_neg (by omega)]
  rfl

theorem safe_decrypt (suite : Suite) (hb : b.length < 2 ^ 31) (hbuffer : After (fromBytes b) buffer)
    (hpacket : 4 ≤ header.packetLen) (hfits : header.packetLen ≤ buffer.len)
    (hsample : 20 ≤ buffer.len) :
    Safe (decrypt suite b header (b.length - buffer.len) buffer) fun decrypted =>
      decrypted.length < 2 ^ 31 := by
  have hlen : buffer.len ≤ b.length := hbuffer.len.trans_eq (sound_fromBytes hb).2
  obtain ⟨cache, hextend, hcache, hstop, hlength⟩ := exists_extend_new (show 16 ≤ 8192 by norm_num)
  rw [Nat.cast_ofNat] at hextend
  rw [decrypt, hextend]
  have hsampleRange : Safe (slice b (b.length - buffer.len + 4)
      (b.length - buffer.len + 4 + (List.replicate 16 (0 : UInt8)).length)) _ :=
    safe_slice (by omega) (by omega) (by rw [List.length_replicate]; omega)
  change Safe (slice b _ _ >>= _) _
  refine hsampleRange.bind fun sample _ => ?_
  have hmask := suite.encrypt_length header.versionNumber header.destConnID sample
  generalize suite.encrypt header.versionNumber header.destConnID sample = mask at hmask ⊢
  refine (safe_byteAt le_rfl (by omega)).bind fun x _ => ?_
  refine (safe_xorByteAt le_rfl (by omega)).bind fun b₁ hb₁ => ?_
  refine (safe_byteAt le_rfl (by omega)).bind fun typeByte _ => ?_
  have hnumber := packetNumberLength_le typeByte
  dsimp only
  generalize (typeByte &&& 0x3).toNat + 1 = packetNumberLength at hnumber ⊢
  refine (safe_xorPacketNumber hmask (by omega) (by omega) hnumber).bind fun b₂ hb₂ => ?_
  have hnonce : Safe (cache.extend 8) fun _ => True :=
    (safe_extend hcache (by omega) (n := 8) (by omega)).mono fun _ _ => trivial
  refine hnonce.bind fun nonce _ => ?_
  have hsound : ({ buffer with v := b₂ } : RawBuffer).Sound := by
    have hlength : b₂.length = buffer.v.length := by rw [hb₂, hb₁, hbuffer.v]; rfl
    obtain ⟨hstart, hle, hstop, hlt⟩ := hbuffer.sound
    exact ⟨hstart, hle, by rwa [hlength], hlt⟩
  refine (reads_read packetNumberLength _ hsound).bind fun packetNumber _ => ?_
  refine (safe_slice (by omega) (by omega) (by omega)).bind fun data hdata => ?_
  refine (safe_slice le_rfl (by omega) (by omega)).bind fun additional _ => ?_
  split
  · rename_i decrypted hopen
    have hdecrypted := suite.openData_length _ _ _ _ _ _ hopen
    exact .ok (by omega)
  · exact .error nofun

end Decrypt

section Packet

variable {suite : Suite} {s : Crypto × Bytes}

theorem Crypto.Sound.bytesRange_all {crypto : Crypto} (h : crypto.Sound) :
    crypto.cryptoDataBuf.bytesRange 0 crypto.cryptoLen = .ok (0, crypto.cryptoLen) := by
  have hnonneg := h.nonneg
  have hle := h.le
  have hzero : int32 0 = 0 := int32_eq (by norm_num) (by norm_num)
  have hlen : int32 crypto.cryptoLen = crypto.cryptoLen := int32_eq (by omega) (by omega)
  have hlow : place 0 crypto.cryptoLen = 0 := if_neg (lt_irrefl 0)
  have hhigh : place crypto.cryptoLen crypto.cryptoLen = crypto.cryptoLen := if_neg (not_lt.mpr hnonneg)
  have hrange := h.bytesRange_eq 0 crypto.cryptoLen
  rwa [hzero, hlen, hlow, hhigh, if_pos ⟨le_rfl, hnonneg, hle⟩] at hrange

variable [VarintReader]

theorem readPlaintext_of_panic {crypto : Crypto} {restPayload decrypted : Bytes}
    (hframes : frames crypto decrypted = .error .panicked) :
    readPlaintext crypto restPayload decrypted = .error .panicked := by
  rw [readPlaintext, hframes]
  rfl

theorem safe_readPlaintext {crypto : Crypto} (hs : crypto.Sound) {restPayload decrypted : Bytes}
    (hframes : frames crypto decrypted ≠ .error .panicked) :
    Safe (readPlaintext crypto restPayload decrypted)
      (Sum.elim (fun _ => True) fun s' => s'.1.Sound ∧ s'.2 = restPayload) := by
  have hsafe : Safe (frames crypto decrypted) Crypto.Sound := ⟨hframes, fun _ h => frames_sound hs h⟩
  refine hsafe.bind fun crypto' hs' => ?_
  rw [hs'.bytesRange_all]
  change Safe (slice _ _ _ >>= _) _
  have hlength := hs'.length
  have hle := hs'.le
  refine (safe_slice le_rfl hs'.nonneg (by omega)).bind fun data _ => ?_
  have hhello := (safe_readClientHello data).1
  split
  · exact .ok trivial
  · rename_i hpanic
    exact absurd hpanic hhello
  · exact .ok ⟨hs', rfl⟩

theorem bind_readPlaintext_iff {crypto : Crypto} (hs : crypto.Sound) (restPayload : Bytes)
    {x : Except Error Bytes} (hx : x ≠ .error .panicked) :
    x >>= readPlaintext crypto restPayload = .error .panicked ↔
      ∃ decrypted, x = .ok decrypted ∧ frames crypto decrypted = .error .panicked := by
  cases x with
  | error err =>
      refine iff_of_false (fun hpanic => hx (congrArg _ (Except.error.inj hpanic))) ?_
      rintro ⟨decrypted, hok, -⟩
      cases hok
  | ok decrypted =>
      rw [ok_bind]
      constructor
      · refine fun hpanic => ⟨decrypted, rfl, not_not.mp fun hne => ?_⟩
        exact (safe_readPlaintext hs hne).1 hpanic
      · rintro ⟨_, hok, hpanic⟩
        cases hok
        exact readPlaintext_of_panic hpanic

theorem packet_next (hs : s.1.Sound) {s' : Crypto × Bytes} (h : packet suite s = .ok (.inr s')) :
    s'.1.Sound ∧ s'.2.length < s.2.length := by
  rw [packet] at h
  dsimp only at h
  split_ifs at h with hnil
  obtain ⟨⟨header, buffer⟩, hread, h⟩ := bind_eq_ok.mp h
  have hpacket := packetLen_of_readHeader hread
  dsimp only at h hpacket
  by_cases hfits : (s.2.length : Int) < s.2.length - buffer.len + header.packetLen
  · rw [if_pos hfits] at h
    cases h
  rw [if_neg hfits] at h
  obtain ⟨restPayload, hslice, h⟩ := bind_eq_ok.mp h
  have hlen := len_of_readHeader hread
  have hrest := (safe_sliceFrom (b := s.2) (by omega) (by omega)).2 _ hslice
  dsimp only at hrest
  split_ifs at h
  · obtain ⟨decrypted, -, h⟩ := bind_eq_ok.mp h
    have hframes : frames s.1 decrypted ≠ .error .panicked := fun hpanic =>
      nomatch (readPlaintext_of_panic hpanic).symm.trans h
    obtain ⟨hs', rfl⟩ := (safe_readPlaintext hs hframes).2 _ h
    exact ⟨hs', by omega⟩
  · cases h
    exact ⟨hs, by dsimp only; omega⟩

theorem packet_of_initial (suite : Suite) {header : Header} {buffer : RawBuffer}
    (hread : readHeader s.2 (fromBytes s.2) = .ok (header, buffer)) (hlen : buffer.len ≤ s.2.length)
    (hpacket : 4 ≤ header.packetLen) (hfits : header.packetLen ≤ buffer.len)
    (hinitial : header.isQuicInitial = true) :
    ∃ restPayload, packet suite s = decrypt suite s.2 header (s.2.length - buffer.len) buffer >>=
      readPlaintext s.1 restPayload := by
  have hne : s.2 ≠ [] := by
    rw [← List.length_pos_iff]
    omega
  have hrange : 0 ≤ s.2.length - buffer.len + header.packetLen ∧
      s.2.length - buffer.len + header.packetLen ≤ s.2.length ∧
      (s.2.length : Int) ≤ s.2.length := by omega
  refine ⟨(s.2.take ((s.2.length : Int)).toNat).drop
    (s.2.length - buffer.len + header.packetLen).toNat, ?_⟩
  rw [packet, if_neg hne, hread]
  change (if _ then _ else sliceFrom _ _ >>= _) = _
  rw [if_neg (by omega), sliceFrom, slice, if_pos hrange]
  change (if _ then _ else _) = _
  rw [if_neg (not_not.mpr hinitial)]

theorem packet_of_other (hb : s.2.length < 2 ^ 31)
    (hother : ∀ header buffer, readHeader s.2 (fromBytes s.2) = .ok (header, buffer) →
      header.isQuicInitial = true → ¬header.packetLen ≤ buffer.len) :
    packet suite s ≠ .error .panicked := by
  obtain ⟨hsound, hall⟩ := sound_fromBytes hb
  have hheader := reads_readHeader hb _ hsound
  rw [packet]
  dsimp only
  split_ifs with hnil
  · nofun
  cases hread : readHeader s.2 (fromBytes s.2) with
  | error err => exact fun hpanic => hheader.1 (hread.trans (congrArg _ (Except.error.inj hpanic)))
  | ok result =>
      obtain ⟨header, buffer⟩ := result
      obtain ⟨hpacket, hafter⟩ := hheader.2 _ hread
      have hlen : buffer.len ≤ s.2.length := hafter.len.trans_eq hall
      have hsafe : Safe (if (s.2.length : Int) < s.2.length - buffer.len + header.packetLen then
          .error errNoClue
        else do
          let restPayload ← sliceFrom s.2 (s.2.length - buffer.len + header.packetLen)
          if ¬header.isQuicInitial then .ok (.inr (s.1, restPayload))
          else do
            let decrypted ← decrypt suite s.2 header (s.2.length - buffer.len) buffer
            readPlaintext s.1 restPayload decrypted) fun _ => True := by
        refine .ite (fun _ => .error nofun) fun hfits => ?_
        refine (safe_sliceFrom (by omega) (by omega)).bind fun restPayload _ => ?_
        refine .ite (fun _ => .ok trivial) fun hinitial => ?_
        exact absurd (show (header.packetLen : Int) ≤ buffer.len by omega)
          (hother header buffer hread (not_not.mp hinitial))
      exact hsafe.1

/-- **One packet** makes the code panic exactly if it is not in range. -/
theorem packet_eq_panicked_iff (hs : s.1.Sound) (hb : s.2.length < 2 ^ 31) :
    packet suite s = .error .panicked ↔ ¬PacketInRange suite s := by
  by_cases hother : ∀ header buffer, readHeader s.2 (fromBytes s.2) = .ok (header, buffer) →
      header.isQuicInitial = true → ¬header.packetLen ≤ buffer.len
  · refine iff_of_false (packet_of_other hb hother) (not_not.mpr ?_)
    exact fun header buffer hread hinitial hfits => absurd hfits (hother header buffer hread hinitial)
  · push Not at hother
    obtain ⟨header, buffer, hread, hinitial, hfits⟩ := hother
    obtain ⟨hsound, hall⟩ := sound_fromBytes hb
    obtain ⟨hpacket, hafter⟩ := (reads_readHeader hb _ hsound).2 _ hread
    obtain ⟨restPayload, heq⟩ := packet_of_initial suite hread
      (hafter.len.trans_eq hall) hpacket hfits hinitial
    have hrange : PacketInRange suite s ↔ 20 ≤ buffer.len ∧ ∀ decrypted,
        decrypt suite s.2 header (s.2.length - buffer.len) buffer = .ok decrypted →
        ∀ s', Reaches frame (s.1, fromBytes decrypted) s' → FrameInRange s' := by
      refine ⟨fun h => h header buffer hread hinitial hfits, fun h header' buffer' hread' _ _ => ?_⟩
      obtain ⟨rfl, rfl⟩ := Prod.mk.inj (Except.ok.inj (hread.symm.trans hread'))
      exact h
    rw [hrange, heq]
    by_cases hsample : 20 ≤ buffer.len
    · obtain ⟨hdecrypt, hlt⟩ := safe_decrypt suite hb hafter hpacket hfits hsample
      rw [bind_readPlaintext_iff hs restPayload hdecrypt]
      constructor
      · rintro ⟨decrypted, hok, hframes⟩ ⟨-, hall⟩
        obtain ⟨s', hreach, hout⟩ := (frames_eq_panicked_iff hs (hlt _ hok)).mp hframes
        exact hout (hall decrypted hok s' hreach)
      · intro hout
        rw [not_and] at hout
        have hsome := hout hsample
        push Not at hsome
        obtain ⟨decrypted, hok, s', hreach, hout⟩ := hsome
        exact ⟨decrypted, hok, (frames_eq_panicked_iff hs (hlt _ hok)).mpr ⟨s', hreach, hout⟩⟩
    · rw [decrypt_of_short (by omega)]
      exact iff_of_true rfl fun h => hsample h.1

end Packet

theorem sound_empty : ({} : Crypto).Sound :=
  ⟨rfl, rfl, le_rfl, by norm_num, List.length_replicate⟩

/-- **When `SniffQUIC` returns.** For a datagram of any length below 2 ^ 31 and whatever its packets decrypt
to, the code ends with a result or an error, and does not panic, exactly if every packet it comes to is in
range: an initial packet has twenty bytes or more behind its header, and each frame the code comes to in it is
no CONNECTION_CLOSE frame with a reason whose length is negative as an `int32`, and no CRYPTO frame whose
bounds, as `int32` and taken from the end if they are negative, are not in order. -/
theorem sniffQUIC_returns_iff [VarintReader] (suite : Suite) {b : Bytes} (hb : b.length < 2 ^ 31) :
    sniffQUIC suite b ≠ .error .panicked ↔
      ∀ s, Reaches (packet suite) ({}, b) s → PacketInRange suite s := by
  have hsound : ∀ s, Reaches (packet suite) ({}, b) s → s.1.Sound ∧ s.2.length < 2 ^ 31 := fun s =>
    Reaches.inv (fun s => s.1.Sound ∧ s.2.length < 2 ^ 31) (fun _ _ hs h =>
      have hnext := packet_next hs.1 h
      ⟨hnext.1, hnext.2.trans hs.2⟩) ⟨sound_empty, hb⟩
  have hpanics : sniffQUIC suite b = .error .panicked ↔
      ∃ s, Reaches (packet suite) ({}, b) s ∧ packet suite s = .error .panicked := by
    have hloop := @loop_eq_error_iff _ _ _ Error.panicked (packet suite) (fun s => s.1.Sound)
      (fun s => s.2.length) (fun _ _ hs h => packet_next hs h) (b.length + 1) ({}, b) sound_empty
      (Nat.lt_succ_self _) .panicked
    rw [sniffQUIC]
    split_ifs with hnil
    · refine iff_of_false nofun ?_
      rintro ⟨s, hreach, hpanic⟩
      have hnone : packet suite ({}, b) = .error errProtoNeedMoreData := if_pos hnil
      obtain rfl | ⟨s', hfirst, -⟩ := hreach.cases_head
      · exact nomatch hnone.symm.trans hpanic
      · exact nomatch hnone.symm.trans hfirst
    · exact hloop
  rw [Ne, hpanics]
  push Not
  refine forall_congr' fun s => imp_congr_right fun hreach => ?_
  obtain ⟨hs, hlength⟩ := hsound s hreach
  rw [Ne, packet_eq_panicked_iff hs hlength, not_not]

section Plain

/-- The number at the beginning of these bytes of a buffer. -/
def plainVarint (b : RawBuffer) : Bytes → Except Error (Nat × RawBuffer)
  | [] => .error .eof
  | first :: rest =>
      let size := 2 ^ (first.toNat / 64) - 1
      if size ≤ rest.length then
        .ok ((rest.take size).foldl (fun value x => 256 * value + x.toNat) (first.toNat % 64),
          { b with start := b.start + (size + 1 : Nat) })
      else .error .eof

/-- A reader of numbers. -/
@[reducible] def plainVarints : VarintReader where
  readVarint b := b.bytes >>= plainVarint b
  readVarint_ok n b rest _ hbytes := by
    have hle : 2 ^ (n.first.toNat / 64) - 1 ≤ (n.more ++ rest).length := by
      rw [List.length_append, n.length_eq]
      omega
    have htake : (n.more ++ rest).take (2 ^ (n.first.toNat / 64) - 1) = n.more := List.take_left' n.length_eq
    rw [hbytes, ok_bind, Varint.bytes, List.cons_append, plainVarint, if_pos hle, htake, List.length_cons,
      n.length_eq]
    rfl
  readVarint_error b data _ hbytes hnone := by
    rw [hbytes, ok_bind]
    cases data with
    | nil => exact ⟨_, rfl, Error.noConfusion⟩
    | cons first rest =>
        have hlt : ¬2 ^ (first.toNat / 64) - 1 ≤ rest.length := fun hle =>
          hnone ⟨first, rest.take (2 ^ (first.toNat / 64) - 1), List.length_take_of_le hle⟩
            (rest.drop (2 ^ (first.toNat / 64) - 1)) (by
              rw [Varint.bytes, List.cons_append, List.take_append_drop])
        rw [plainVarint, if_neg hlt]
        exact ⟨_, rfl, Error.noConfusion⟩

attribute [local instance] plainVarints

/-- A suite that does not encrypt. -/
def plainSuite : Suite where
  encrypt _ _ _ := List.replicate 16 0
  openData _ _ _ data _ := if 16 ≤ data.length then some (data.take (data.length - 16)) else none
  encrypt_length _ _ _ := List.length_replicate
  openData_length _ _ _ data _ plaintext h := by
    split_ifs at h
    cases h
    rw [List.length_take]
    omega

/-- A packet with a PING frame and a CRYPTO frame, and one whose CONNECTION_CLOSE frame has a reason. -/
theorem sniffQUIC_returns_two :
    let b : Bytes :=
      [0xc0, 0, 0, 0, 1, 0, 0, 0, 24, 0, 1, 6, 5, 2, 8, 9] ++ List.replicate 17 0 ++
        [0xc0, 0, 0, 0, 1, 0, 0, 0, 23, 0, 0x1c, 0, 0, 2, 8, 9] ++ List.replicate 16 0
    b.length < 2 ^ 31 ∧ ∀ s, Reaches (packet plainSuite) ({}, b) s →
      PacketInRange plainSuite s :=
  ⟨by decide, (sniffQUIC_returns_iff plainSuite (by decide)).mp (by decide +kernel)⟩

/-- An initial packet of four bytes at the end of a datagram, the length of a reason with its highest bit
set, and an offset of crypto data that is negative. -/
theorem sniffQUIC_panics :
    (∀ suite, sniffQUIC suite [0xc0, 0, 0, 0, 1, 0, 0, 0, 4, 1, 2, 3, 4] = .error .panicked) ∧
      frames {} [0x1c, 0, 0, 0xc0, 0, 0, 0, 0x80, 0, 0, 0] = .error .panicked ∧
      frames {} [0x06, 0xc0, 0, 0, 0, 0xff, 0xff, 0xff, 0xff, 1, 0] = .error .panicked := by
  refine ⟨fun suite => ?_, by decide +kernel, by decide +kernel⟩
  have hread : readHeader [0xc0, 0, 0, 0, 1, 0, 0, 0, 4, 1, 2, 3, 4]
      (fromBytes [0xc0, 0, 0, 0, 1, 0, 0, 0, 4, 1, 2, 3, 4]) =
      .ok (⟨1, [], true, 4⟩, ⟨[0xc0, 0, 0, 0, 1, 0, 0, 0, 4, 1, 2, 3, 4], 9, 13⟩) := by decide +kernel
  have hpacket : packet suite ({}, [0xc0, 0, 0, 0, 1, 0, 0, 0, 4, 1, 2, 3, 4]) = .error .panicked := by
    refine (packet_eq_panicked_iff sound_empty (by decide)).mpr fun hrange => ?_
    have hsample := (hrange _ _ hread rfl (by decide +kernel)).1
    exact absurd hsample (by decide +kernel)
  refine (if_neg (List.cons_ne_nil _ _)).trans ?_
  rw [loop, hpacket]

end Plain

end V2RootCore.Quic
