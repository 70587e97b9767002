import V2RootCore.Proof.Buf.RawBuffer
import V2RootCore.Quic.Sniff

/-!
# The frames of a plaintext

The sender of an initial packet chooses its plaintext. Its numbers have up to 62 bits and are converted to
32 bits before they are used: the length of a reason that becomes negative takes the start of the buffer
back, and a negative bound of crypto data is taken from the end of what is there.
-/

namespace V2RootCore.Quic

open Go Buf RawBuffer

/-- A bound of `BytesRange`. -/
def place (x len : Int) : Int := if x < 0 then x + len else x

/-- The place of the data of a CRYPTO frame is inside the buffer, or the frame is refused. -/
def CryptoInRange (cryptoLen : Int) (offset length : Nat) : Prop :=
  max cryptoLen (int32 (offset + length)) ≤ 32768 →
    0 ≤ place (int32 offset) (max cryptoLen (int32 (offset + length))) ∧
    place (int32 offset) (max cryptoLen (int32 (offset + length))) ≤
      place (int32 (offset + length)) (max cryptoLen (int32 (offset + length)))

/-- What follows the type of a frame is in range. -/
structure BodyInRange [VarintReader] (s : Crypto) (frameType : UInt8) (b : RawBuffer) : Prop where
  crypto : frameType = 0x06 → ∀ offset length b', cryptoFields b = .ok ((offset, length), b') →
    CryptoInRange s.cryptoLen offset length
  close : frameType = 0x1c → ∀ length b', closeField b = .ok (length, b') → 0 ≤ int32 length

/-- The next frame is in range. -/
def FrameInRange [VarintReader] (s : Crypto × RawBuffer) : Prop :=
  ∀ frameType b, readFrameType (s.2.v.length + 1) s.2 = .ok (frameType, b) →
    BodyInRange s.1 frameType b

section Fields

theorem reads_get : Reads get fun _ => True := fun _ hb => .ok ⟨trivial, hb.after⟩

theorem safe_readFrameType {fuel : Nat} {b : RawBuffer} (hb : b.Sound) (hfuel : b.len < fuel) :
    Safe (readFrameType fuel b) fun result => After b result.2 ∧ result.2.len < b.len := by
  induction fuel generalizing b with
  | zero =>
      have := hb.len_nonneg
      omega
  | succ fuel ih =>
      refine (safe_readByte hb).bind ?_
      rintro ⟨frameType, b'⟩ ⟨hafter, hlen⟩
      dsimp only at hafter hlen
      change Safe ((if frameType = 0 ∧ ¬b'.isEmpty then readFrameType fuel else pure frameType) b') _
      split_ifs
      · refine (ih hafter.sound (by omega)).mono fun result hresult => ⟨hafter.trans hresult.1, ?_⟩
        omega
      · exact .ok ⟨hafter, by dsimp only; omega⟩

variable [VarintReader]

theorem reads_readVarint : Reads readVarint fun _ => True := by
  intro b hb
  have hbytes : b.bytes = .ok ((b.v.take b.stop.toNat).drop b.start.toNat) :=
    if_pos ⟨hb.start_nonneg, hb.start_le, hb.stop_le⟩
  by_cases hnumber : ∃ (n : Varint) (rest : Bytes), (b.v.take b.stop.toNat).drop b.start.toNat = n.bytes ++ rest
  · obtain ⟨n, rest, hdata⟩ := hnumber
    have hlength := congrArg List.length hdata
    rw [List.length_drop, List.length_take, List.length_append] at hlength
    have hstart := hb.start_nonneg
    have hle := hb.start_le
    have hstop := hb.stop_le
    have hlt := hb.stop_lt
    have hread := VarintReader.readVarint_ok n b rest hlt (hdata ▸ hbytes)
    have hafter := (hb.advance (n := n.bytes.length) (Int.natCast_nonneg _) (by rw [hb.len_eq]; omega)).1
    rw [int32_eq (by omega) (by omega)] at hafter
    rw [hread]
    exact .ok ⟨trivial, hafter⟩
  · obtain ⟨err, hread, herr⟩ := VarintReader.readVarint_error b _ hb.stop_lt hbytes
      fun n rest hdata => hnumber ⟨n, rest, hdata⟩
    rw [hread]
    exact .error herr

theorem reads_field : Reads (readVarint.orFail .unexpectedEOF) fun _ => True :=
  reads_readVarint.orFail nofun

theorem reads_skipVarint : Reads skipVarint fun _ => True :=
  reads_field.bind fun _ _ => .pure trivial

theorem reads_skipAckRanges (n : Nat) : Reads (skipAckRanges n) fun _ => True := by
  induction n with
  | zero => exact .pure trivial
  | succ n ih => exact reads_skipVarint.bind fun _ _ => reads_skipVarint.bind fun _ _ => ih

theorem reads_ackFrame (frameType : UInt8) : Reads (ackFrame frameType) fun _ => True := by
  refine reads_skipVarint.bind fun _ _ => reads_skipVarint.bind fun _ _ => ?_
  refine reads_field.bind fun ackRangeCount _ => reads_skipVarint.bind fun _ _ => ?_
  refine (reads_skipAckRanges ackRangeCount).bind fun _ _ => .ite (fun _ => ?_) fun _ => .pure trivial
  exact reads_skipVarint.bind fun _ _ => reads_skipVarint.bind fun _ _ => reads_skipVarint

theorem reads_cryptoFields : Reads cryptoFields fun _ => True := by
  refine reads_field.bind fun offset _ => ?_
  refine reads_field.bind fun length _ => reads_get.bind fun buffer _ => ?_
  exact .ite (fun _ => .throw nofun) fun _ => .pure trivial

theorem reads_closeField : Reads closeField fun _ => True :=
  reads_skipVarint.bind fun _ _ => reads_skipVarint.bind fun _ _ => reads_field

end Fields

/-- The crypto data is the beginning of its buffer. -/
structure Crypto.Sound (s : Crypto) : Prop where
  start : s.cryptoDataBuf.start = 0
  stop : s.cryptoDataBuf.stop = s.cryptoLen
  nonneg : 0 ≤ s.cryptoLen
  le : s.cryptoLen ≤ 32768
  length : s.cryptoDataBuf.v.length = 32768

namespace Crypto.Sound

variable {s : Crypto}

theorem sound (h : s.Sound) : s.cryptoDataBuf.Sound := by
  obtain ⟨hstart, hstop, hnonneg, hle, hlength⟩ := h
  refine ⟨hstart.ge, ?_, ?_, ?_⟩
  · omega
  · omega
  · omega

theorem len_eq (h : s.Sound) : s.cryptoDataBuf.len = s.cryptoLen := by
  rw [h.sound.len_eq, h.start, h.stop, sub_zero]

theorem cap_eq (h : s.Sound) : s.cryptoDataBuf.cap = 32768 := by
  rw [cap, h.length]
  exact int32_eq (by norm_num) (by norm_num)

theorem extendTo_of_le (h : s.Sound) {c : Int} (hc : c ≤ 32768) :
    ∃ s', s.extendTo c = .ok s' ∧ s'.Sound ∧ s'.cryptoLen = max s.cryptoLen c := by
  rw [extendTo]
  have hnonneg := h.nonneg
  have hlength := h.length
  split_ifs with hlt hcap
  · rw [h.cap_eq] at hcap
    omega
  · obtain ⟨n, hn⟩ := Int.eq_ofNat_of_zero_le (show 0 ≤ c - s.cryptoLen by omega)
    have hstop := h.stop
    have hroom : s.cryptoDataBuf.stop + n ≤ s.cryptoDataBuf.v.length := by omega
    rw [int32_eq (by omega) (by omega), hn, extend_eq h.sound (by omega) hroom]
    refine ⟨_, rfl, ⟨h.start, ?_, ?_, hc, ?_⟩, (max_eq_right hlt.le).symm⟩
    · dsimp only
      omega
    · dsimp only
      omega
    · rw [← hlength]
      refine length_copyTo ?_
      rw [List.length_replicate]
      omega
  · exact ⟨s, rfl, h, (max_eq_left (not_lt.mp hlt)).symm⟩

theorem extendTo_of_lt (h : s.Sound) {c : Int} (hc : 32768 < c) :
    s.extendTo c = .error errShortBuffer := by
  have hle := h.le
  rw [extendTo, if_pos (by omega), h.cap_eq, if_pos hc]

theorem bytesRange_eq (h : s.Sound) (low high : Int) :
    s.cryptoDataBuf.bytesRange (int32 low) (int32 high) =
      if 0 ≤ place (int32 low) s.cryptoLen ∧
          place (int32 low) s.cryptoLen ≤ place (int32 high) s.cryptoLen ∧
          place (int32 high) s.cryptoLen ≤ 32768 then
        .ok (place (int32 low) s.cryptoLen, place (int32 high) s.cryptoLen)
      else .error .panicked := by
  have hnonneg := h.nonneg
  have hle := h.le
  have hplace : ∀ x, int32 (if int32 x < 0 then int32 (int32 x + s.cryptoDataBuf.len) else int32 x) =
      place (int32 x) s.cryptoLen := by
    intro x
    have hrange := int32_range x
    rw [place, h.len_eq]
    split_ifs
    · rw [int32_eq (x := int32 x + s.cryptoLen) (by omega) (by omega)]
      exact int32_eq (by omega) (by omega)
    · exact int32_eq hrange.1 hrange.2
  rw [bytesRange, h.start, zero_add, zero_add, hplace, hplace, slice, h.length, Nat.cast_ofNat]
  split_ifs <;> rfl

theorem withData (h : s.Sound) {low : Nat} {data : Bytes}
    (hroom : low + data.length ≤ s.cryptoDataBuf.v.length) :
    ({ s with
      cryptoDataBuf := { s.cryptoDataBuf with v := copyTo s.cryptoDataBuf.v low data } } :
        Crypto).Sound :=
  ⟨h.start, h.stop, h.nonneg, h.le, (length_copyTo hroom).trans h.length⟩

theorem readData_cases (h : s.Sound) (offset length : Nat) {b : RawBuffer} (hb : b.Sound) :
    (CryptoInRange s.cryptoLen offset length →
      Safe (s.readData offset length b) fun result => result.1.Sound ∧ After b result.2) ∧
    (¬CryptoInRange s.cryptoLen offset length → s.readData offset length b = .error .panicked) := by
  rw [readData]
  by_cases hle : int32 (offset + length) ≤ 32768
  · obtain ⟨s', hextend, hs', hlen⟩ := h.extendTo_of_le hle
    have hsmall : max s.cryptoLen (int32 (offset + length)) ≤ 32768 := max_le h.le hle
    have hmax : int32 (offset + length) ≤ max s.cryptoLen (int32 (offset + length)) := le_max_right _ _
    have hbytes := hs'.bytesRange_eq offset (offset + length)
    have hrange : CryptoInRange s.cryptoLen offset length ↔
        0 ≤ place (int32 offset) s'.cryptoLen ∧
          place (int32 offset) s'.cryptoLen ≤ place (int32 (offset + length)) s'.cryptoLen := by
      rw [CryptoInRange, hlen]
      exact forall_prop_of_true hsmall
    have hhigh : place (int32 (offset + length)) s'.cryptoLen ≤ 32768 := by
      rw [place]
      split_ifs <;> omega
    rw [hextend, hrange]
    change (_ → Safe (s'.cryptoDataBuf.bytesRange _ _ >>= _) _) ∧
      (_ → (s'.cryptoDataBuf.bytesRange _ _ >>= _) = _)
    rw [hbytes]
    generalize place (int32 offset) s'.cryptoLen = low at *
    generalize place (int32 (offset + length)) s'.cryptoLen = high at *
    constructor
    · rintro ⟨hlow, hle⟩
      rw [if_pos ⟨hlow, hle, hhigh⟩]
      have hread : Reads ((read (high - low).toNat).orFail .unexpectedEOF) _ :=
        (reads_read _).orFail nofun
      refine (hread b hb).bind fun result hresult => .ok ⟨?_, hresult.2⟩
      have hlength := hs'.length
      have hdata : result.1.length ≤ (high - low).toNat := hresult.1
      have hroom : low.toNat + result.1.length ≤ s'.cryptoDataBuf.v.length := by omega
      exact hs'.withData hroom
    · intro hout
      rw [if_neg fun hrange => hout ⟨hrange.1, hrange.2.1⟩]
      rfl
  · rw [h.extendTo_of_lt (not_le.mp hle)]
    refine ⟨fun _ => .error nofun, fun hout => absurd (fun hsmall => ?_) hout⟩
    exact absurd ((le_max_right _ _).trans hsmall) hle

theorem readData_sound (h : s.Sound) {offset length : Nat} {b : RawBuffer}
    {result : Crypto × RawBuffer} (hdata : s.readData offset length b = .ok result) :
    result.1.Sound := by
  rw [readData] at hdata
  by_cases hle : int32 (offset + length) ≤ 32768
  · obtain ⟨s', hextend, hs', -⟩ := h.extendTo_of_le hle
    rw [hextend] at hdata
    obtain ⟨bounds, hbounds, hrest⟩ :=
      (bind_eq_ok (x := s'.cryptoDataBuf.bytesRange _ _)).mp hdata
    rw [hs'.bytesRange_eq] at hbounds
    split_ifs at hbounds with hrange
    obtain rfl := Except.ok.inj hbounds
    obtain ⟨more, hread, hresult⟩ := bind_eq_ok.mp hrest
    obtain rfl := Except.ok.inj hresult
    have hle := length_le_of_read (eq_ok_of_orFail hread)
    have hlength := hs'.length
    exact hs'.withData (by omega)
  · rw [h.extendTo_of_lt (not_le.mp hle)] at hdata
    cases hdata

end Crypto.Sound

section Frame

variable {s : Crypto} {b : RawBuffer}

theorem readBytes_negative (hb : b.Sound) {length : Int} (hlength : length < 0)
    (hlow : -2 ^ 31 ≤ length) : readBytes length b = .error .panicked := by
  have hlen := hb.len_nonneg
  have := hb.start_nonneg
  have := hb.start_le
  have := hb.stop_le
  have := hb.stop_lt
  have hstart : int32 (b.start + length) = b.start + length := int32_eq (by omega) (by omega)
  have hle : ¬int32 (b.stop - b.start) < length := by
    change ¬b.len < length
    omega
  rw [readBytes, if_neg hle, hstart, slice, if_neg (by omega)]
  rfl

theorem reads_reason {length : Int} (hlength : 0 ≤ length) (s : Crypto) :
    Reads ((readBytes length).orFail .unexpectedEOF >>= fun _ => pure s) fun s' => s' = s := by
  have hbytes : Reads ((readBytes length).orFail .unexpectedEOF) _ :=
    (reads_readBytes hlength).orFail nofun
  exact hbytes.bind fun _ _ => .pure rfl

theorem reason_negative (hb : b.Sound) {length : Int} (hlength : length < 0)
    (hlow : -2 ^ 31 ≤ length) (s : Crypto) :
    ((readBytes length).orFail .unexpectedEOF >>= fun _ => pure s) b = .error .panicked := by
  refine bind_of_error ?_
  rw [Reading.orFail, readBytes_negative hb hlength hlow]

variable [VarintReader]

theorem frameBody_cases (hs : s.Sound) (frameType : UInt8) (hb : b.Sound) :
    (BodyInRange s frameType b →
      Safe (frameBody s frameType b) fun result => result.1.Sound ∧ After b result.2) ∧
    (¬BodyInRange s frameType b → frameBody s frameType b = .error .panicked) := by
  have hother : frameType ≠ 0x06 → frameType ≠ 0x1c → BodyInRange s frameType b :=
    fun hcrypto hclose => ⟨fun h => absurd h hcrypto, fun h => absurd h hclose⟩
  unfold frameBody
  split
  · exact ⟨fun _ => .ok ⟨hs, hb.after⟩, fun h => absurd (hother (by decide) (by decide)) h⟩
  · exact ⟨fun _ => .ok ⟨hs, hb.after⟩, fun h => absurd (hother (by decide) (by decide)) h⟩
  · refine ⟨fun _ => ?_, fun h => absurd (hother (by decide) (by decide)) h⟩
    exact (reads_ackFrame _ b hb).bind fun result hresult => .ok ⟨hs, hresult.2⟩
  · refine ⟨fun _ => ?_, fun h => absurd (hother (by decide) (by decide)) h⟩
    exact (reads_ackFrame _ b hb).bind fun result hresult => .ok ⟨hs, hresult.2⟩
  · have hfields := reads_cryptoFields b hb
    cases hread : cryptoFields b with
    | error err =>
        rw [hread] at hfields
        rw [bind_of_error hread]
        refine ⟨fun _ => .error fun h => hfields.1 (congrArg _ h), fun hout => absurd ?_ hout⟩
        exact ⟨fun _ _ _ _ h => (nomatch hread.symm.trans h), fun h => absurd h (by decide)⟩
    | ok result =>
        rw [hread] at hfields
        have hafter := (hfields.2 _ rfl).2
        have hdata := hs.readData_cases result.1.1 result.1.2 hafter.sound
        rw [bind_of_ok hread]
        refine ⟨fun hrange => ?_, fun hout => hdata.2 fun hin => hout ?_⟩
        · exact (hdata.1 (hrange.crypto rfl _ _ _ hread)).mono fun _ hresult =>
            ⟨hresult.1, hafter.trans hresult.2⟩
        · refine ⟨fun _ offset length b' h => ?_, fun h => absurd h (by decide)⟩
          obtain rfl := Except.ok.inj (hread.symm.trans h)
          exact hin
  · have hfields := reads_closeField b hb
    cases hread : closeField b with
    | error err =>
        rw [hread] at hfields
        rw [bind_of_error hread]
        refine ⟨fun _ => .error fun h => hfields.1 (congrArg _ h), fun hout => absurd ?_ hout⟩
        exact ⟨fun h => absurd h (by decide), fun _ _ _ h => (nomatch hread.symm.trans h)⟩
    | ok result =>
        rw [hread] at hfields
        have hafter := (hfields.2 _ rfl).2
        rw [bind_of_ok hread]
        refine ⟨fun hrange => ?_, fun hout => ?_⟩
        · refine (reads_reason (hrange.close rfl _ _ hread) s _ hafter.sound).mono ?_
          exact fun more hmore => ⟨hmore.1 ▸ hs, hafter.trans hmore.2⟩
        · have hnegative : int32 result.1 < 0 := by
            refine not_le.mp fun hnonneg => hout ⟨fun h => absurd h (by decide), fun _ _ _ h => ?_⟩
            obtain rfl := Except.ok.inj (hread.symm.trans h)
            exact hnonneg
          exact reason_negative hafter.sound hnegative (int32_range _).1 s
  · refine ⟨fun _ => .error nofun, fun h => absurd (hother ?_ ?_) h⟩
    · assumption
    · assumption

theorem frameBody_sound (hs : s.Sound) {frameType : UInt8} {result : Crypto × RawBuffer}
    (hbody : frameBody s frameType b = .ok result) : result.1.Sound := by
  unfold frameBody at hbody
  split at hbody
  · cases hbody
    exact hs
  · cases hbody
    exact hs
  · obtain ⟨more, -, hresult⟩ := bind_eq_ok.mp hbody
    cases hresult
    exact hs
  · obtain ⟨more, -, hresult⟩ := bind_eq_ok.mp hbody
    cases hresult
    exact hs
  · obtain ⟨fields, -, hresult⟩ := bind_eq_ok.mp hbody
    exact hs.readData_sound hresult
  · obtain ⟨length, -, hmore⟩ := bind_eq_ok.mp hbody
    obtain ⟨more, -, hresult⟩ := bind_eq_ok.mp hmore
    cases hresult
    exact hs
  · cases hbody

theorem frame_sound {s : Crypto × RawBuffer} (hs : s.1.Sound) {next : Crypto ⊕ Crypto × RawBuffer}
    (hframe : frame s = .ok next) : Sum.elim Crypto.Sound (fun s' => s'.1.Sound) next := by
  rw [frame] at hframe
  split_ifs at hframe
  · cases hframe
    exact hs
  · obtain ⟨⟨frameType, b⟩, -, hrest⟩ := bind_eq_ok.mp hframe
    obtain ⟨result, hbody, hresult⟩ := bind_eq_ok.mp hrest
    obtain rfl := Except.ok.inj hresult
    exact frameBody_sound hs hbody

theorem frames_sound (hs : s.Sound) {decrypted : Bytes} {s' : Crypto}
    (hframes : frames s decrypted = .ok s') : s'.Sound := by
  obtain ⟨last, hreach, hend⟩ := exists_of_loop_eq_ok hframes
  have hlast : last.1.Sound :=
    Reaches.inv (fun s => s.1.Sound) (fun _ _ hs h => frame_sound hs h) hs hreach
  exact frame_sound hlast hend

/-- **One frame**: the buffers stay in order and something is read, or the code panics. -/
theorem frame_cases {s : Crypto × RawBuffer} (hs : s.1.Sound) (hb : s.2.Sound) :
    (FrameInRange s → Safe (frame s) (Sum.elim (fun _ => True) fun s' =>
      (s'.1.Sound ∧ s'.2.Sound) ∧ s'.2.len.toNat < s.2.len.toNat)) ∧
    (¬FrameInRange s → frame s = .error .panicked) := by
  have hlen := hb.len_eq
  have := hb.start_nonneg
  have := hb.stop_le
  have htype := safe_readFrameType hb (show s.2.len < ((s.2.v.length + 1 : Nat) : Int) by omega)
  rw [frame]
  split_ifs with hempty
  · refine ⟨fun _ => .ok trivial, fun hout => absurd ?_ hout⟩
    intro frameType b hread
    have hless := (htype.2 _ hread).2
    have hnonneg := (htype.2 _ hread).1.sound.len_nonneg
    have hzero : s.2.len = 0 := of_decide_eq_true hempty
    dsimp only at hless hnonneg
    omega
  · cases hread : readFrameType (s.2.v.length + 1) s.2 with
    | error err =>
        rw [hread] at htype
        refine ⟨fun _ => .error fun h => htype.1 (congrArg _ h), fun hout => absurd ?_ hout⟩
        intro frameType b h
        exact nomatch hread.symm.trans h
    | ok result =>
        obtain ⟨frameType, b⟩ := result
        obtain ⟨hafter, hless⟩ := htype.2 _ hread
        obtain ⟨hin, hout⟩ := frameBody_cases hs frameType hafter.sound
        constructor
        · intro hrange
          refine (hin (hrange _ _ hread)).bind fun result hresult => .ok ?_
          have hle := hresult.2.len
          have hnonneg := hresult.2.sound.len_nonneg
          dsimp only at hle hless
          refine ⟨⟨hresult.1, hresult.2.sound⟩, ?_⟩
          dsimp only
          omega
        · intro hrange
          have hbody : ¬BodyInRange s.1 frameType b := by
            refine fun hbody => hrange fun frameType' b' h => ?_
            obtain ⟨rfl, rfl⟩ := Prod.mk.inj (Except.ok.inj (hread.symm.trans h))
            exact hbody
          change (frameBody s.1 frameType b >>= _) = _
          rw [hout hbody]
          rfl

/-- **The frames of a plaintext** make the code panic exactly if it comes to one that is not in range. -/
theorem frames_eq_panicked_iff (hs : s.Sound) {decrypted : Bytes}
    (hlength : decrypted.length < 2 ^ 31) : frames s decrypted = .error .panicked ↔
      ∃ s', Reaches frame (s, fromBytes decrypted) s' ∧ ¬FrameInRange s' := by
  obtain ⟨hsound, hlen⟩ := sound_fromBytes hlength
  have hstep : ∀ s s' : Crypto × RawBuffer, s.1.Sound ∧ s.2.Sound → frame s = .ok (.inr s') →
      (s'.1.Sound ∧ s'.2.Sound) ∧ s'.2.len.toNat < s.2.len.toNat := by
    intro s s' hinv hframe
    obtain ⟨hin, hout⟩ := frame_cases hinv.1 hinv.2
    by_cases hrange : FrameInRange s
    · exact (hin hrange).2 _ hframe
    · exact nomatch (hout hrange).symm.trans hframe
  have hinv : ∀ s', Reaches frame (s, fromBytes decrypted) s' → s'.1.Sound ∧ s'.2.Sound := fun s' =>
    Reaches.inv (fun s => s.1.Sound ∧ s.2.Sound) (fun s s' hs h => (hstep s s' hs h).1)
      ⟨hs, hsound⟩
  have hfuel : (fromBytes decrypted).len.toNat < decrypted.length + 1 := by omega
  rw [frames, loop_eq_error_iff (fun s => s.1.Sound ∧ s.2.Sound) (fun s => s.2.len.toNat) hstep
    ⟨hs, hsound⟩ hfuel]
  refine exists_congr fun s' => and_congr_right fun hreach => ?_
  obtain ⟨hin, hout⟩ := frame_cases (hinv s' hreach).1 (hinv s' hreach).2
  exact ⟨fun hpanic hrange => (hin hrange).1 hpanic, hout⟩

end Frame

end V2RootCore.Quic
