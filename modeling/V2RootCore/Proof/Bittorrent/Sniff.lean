import V2RootCore.Proof.Buf.RawBuffer
import V2RootCore.Bittorrent.Sniff

/-!
# No uTP packet is recognised

A day has fewer microseconds than the bound, which counts nanoseconds, but the current time counts from
1970 and the timestamp is only its lowest 32 bits. From 2001 on the two are further apart than the bound,
whatever the packet says.
-/

namespace V2RootCore.Bittorrent

open Go Buf RawBuffer

/-- A uTP packet apart from its timestamp. -/
structure UtpPacket where
  type : Fin 5
  connectionID : Bytes
  remaining : Bytes
  extensions : List Bytes
  payload : Bytes
  connectionID_length : connectionID.length = 2
  remaining_length : remaining.length = 12
  extensions_length : ∀ extension ∈ extensions, extension.length < 256

/-- The type of the first of these extensions. -/
def extensionType (extensions : List Bytes) : UInt8 := if extensions = [] then 0 else 1

def chain : List Bytes → Bytes
  | [] => []
  | extension :: extensions =>
      extensionType extensions :: UInt8.ofNat extension.length :: extension ++ chain extensions

/-- The lowest 32 bits of a time. -/
def timestamp (now : Int) : Bytes :=
  let n := (now % 2 ^ 32).toNat
  [UInt8.ofNat (n / 2 ^ 24), UInt8.ofNat (n / 2 ^ 16), UInt8.ofNat (n / 2 ^ 8), UInt8.ofNat n]

def UtpPacket.bytes (p : UtpPacket) (now : Int) : Bytes :=
  UInt8.ofNat (16 * p.type + 1) :: extensionType p.extensions :: p.connectionID ++ timestamp now ++
    p.remaining ++ chain p.extensions ++ p.payload

section Reading

theorem len_lt_of_read {n : Nat} {b : RawBuffer} (hb : b.Sound) (hn : 0 < n) {result : Bytes × RawBuffer}
    (h : read n b = .ok result) : result.2.len < b.len := by
  have hlen := hb.len_eq
  have := hb.start_nonneg
  have := hb.stop_le
  have hnonneg := hb.len_nonneg
  rw [RawBuffer.read] at h
  split_ifs at h with hempty
  obtain ⟨content, hcontent, hresult⟩ := bind_eq_ok.mp h
  have hlength := (safe_slice hb.start_nonneg hb.start_le hb.stop_le).2 _ hcontent
  obtain rfl := Except.ok.inj hresult
  have htake : ((content.take n).length : Int) ≤ b.len := by
    rw [List.length_take]
    omega
  dsimp only
  split_ifs with hall
  · have hzero : ({ b with start := 0, stop := 0 } : RawBuffer).len = 0 := by
      rw [RawBuffer.len, sub_zero, int32_eq (by norm_num) (by norm_num)]
    omega
  · rw [(hb.advance (Int.natCast_nonneg _) htake).2, List.length_take]
    omega

theorem reads_binaryRead (n : Nat) : Reads (binaryRead n) fun _ => True :=
  (reads_read n).bind fun _ _ => .ite (fun _ => .throw nofun) fun _ => .pure trivial

theorem len_lt_of_readUint8 {b : RawBuffer} (hb : b.Sound) {result : UInt8 × RawBuffer}
    (h : readUint8 b = .ok result) : result.2.len < b.len := by
  obtain ⟨data, hdata, hresult⟩ := exists_of_bind h
  obtain ⟨data', hread, hdata'⟩ := exists_of_bind (eq_ok_of_orFail hdata)
  obtain rfl := Except.ok.inj hresult
  have hless := len_lt_of_read hb Nat.one_pos hread
  split_ifs at hdata'
  · cases hdata'
  · obtain rfl := Except.ok.inj hdata'
    exact hless

theorem reads_orNoClue {α β : Type} {read : Reading α} {P : α → Prop} (h : Reads read P) (f : α → β) :
    Reads (read.orFail Tls.errNoClue >>= fun a => pure (f a)) fun _ => True := by
  have hread : Reads (read.orFail Tls.errNoClue) P := h.orFail nofun
  exact hread.bind fun _ _ => .pure trivial

theorem reads_readUint8 : Reads readUint8 fun _ => True := reads_orNoClue (reads_binaryRead 1) _

theorem reads_readUint32 : Reads readUint32 fun _ => True := reads_orNoClue (reads_binaryRead 4) _

theorem reads_skip {length : Int} (hlength : 0 ≤ length) : Reads (skip length) fun _ => True :=
  reads_orNoClue (reads_readBytes hlength) _

theorem safe_readExtension {b : RawBuffer} (hb : b.Sound) :
    Safe (readExtension b) fun s => s.2.Sound ∧ s.2.len < b.len := by
  have hrest : ∀ extension, Reads (do
      let length ← readUint8
      skip length.toNat
      pure extension) fun _ : UInt8 => True := fun extension =>
    reads_readUint8.bind fun _ _ => (reads_skip (Int.natCast_nonneg _)).bind fun _ _ => .pure trivial
  have htype : Safe (readUint8 b) fun s => s.2.Sound ∧ s.2.len < b.len :=
    ⟨(reads_readUint8 b hb).1, fun s hs =>
      ⟨((reads_readUint8 b hb).2 s hs).2.sound, len_lt_of_readUint8 hb hs⟩⟩
  refine htype.bind fun s hs => ?_
  exact (hrest s.1 s.2 hs.1).mono fun s' hs' => ⟨hs'.2.sound, hs'.2.len.trans_lt hs.2⟩

theorem safe_nextExtension (s : UInt8 × RawBuffer) (hs : s.2.Sound) : Safe (nextExtension s)
    (Sum.elim RawBuffer.Sound fun s' => s'.2.Sound ∧ s'.2.len.toNat < s.2.len.toNat) := by
  rw [nextExtension]
  refine .ite (fun _ => .ok hs) fun _ => .ite (fun _ => .error nofun) fun _ => ?_
  refine (safe_readExtension hs).bind fun s' hs' => .ok ⟨hs'.1, ?_⟩
  have := hs'.1.len_nonneg
  omega

end Reading

variable {now : Int} {b : Bytes}

/-- A packet is not read if the length of the slice is negative as an `int32`. -/
theorem sniffUTP_of_negative (hb : int32 b.length < 0) : sniffUTP now b = .error .panicked := by
  have hlong : ¬b.length < 20 := by
    intro hlt
    rw [int32_eq (by omega) (by omega)] at hb
    omega
  have hlen : (fromBytes b).len = int32 b.length := by
    have hrange := int32_range b.length
    change int32 (int32 b.length - 0) = _
    rw [sub_zero, int32_eq hrange.1 hrange.2]
  have hread : read 1 (fromBytes b) = .error .panicked := by
    rw [RawBuffer.read, if_neg (by omega), slice, if_neg]
    · rfl
    · rintro ⟨-, hle, -⟩
      exact absurd hle (not_le.mpr hb)
  have hfull : (binaryRead 1).orFail Tls.errNoClue (fromBytes b) = .error .panicked := by
    rw [Reading.orFail, binaryRead, bind_of_error hread]
  have hfirst : readUint8 (fromBytes b) = .error .panicked := bind_of_error hfull
  rw [sniffUTP, if_neg hlong, hfirst]
  rfl

theorem int32_le (n : Nat) : int32 n ≤ n := by
  rw [int32, Int.bmod_def]
  split_ifs
  · omega
  · omega

theorem sniffUTP_of_nonneg (hb : 0 ≤ int32 b.length) : sniffUTP now b ≠ .error .panicked := by
  have hsound : (fromBytes b).Sound := ⟨le_rfl, hb, int32_le _, (int32_range _).2⟩
  have hlen : (fromBytes b).len ≤ b.length := by
    rw [hsound.len_eq]
    exact (sub_zero (int32 (b.length : Int))).trans_le (int32_le _)
  have hsafe : Safe (sniffUTP now b) fun _ => True := by
    rw [sniffUTP]
    refine .ite (fun _ => .error nofun) fun hlong => ?_
    refine (reads_readUint8 _ hsound).bind fun first hfirst => ?_
    refine (safe_byteAt le_rfl (by omega)).bind fun typeAndVersion _ => .ite (fun _ => .error nofun) fun _ => ?_
    refine (reads_readUint8 _ hfirst.2.sound).bind fun second hsecond => ?_
    refine .ite (fun _ => .error nofun) fun _ => ?_
    have hfuel : second.2.len.toNat < b.length + 1 := by
      have := hfirst.2.len
      have := hsecond.2.len
      omega
    have hloop : Safe (loop .panicked nextExtension (b.length + 1) second) RawBuffer.Sound :=
      safe_loop (fun s => s.2.Sound) (fun s => s.2.len.toNat) safe_nextExtension hsecond.2.sound hfuel
    refine hloop.bind fun third hthird => ?_
    refine (reads_skip (by norm_num) _ hthird).bind fun fourth hfourth => ?_
    refine (reads_readUint32 _ hfourth.2.sound).bind fun fifth _ => ?_
    exact .ite (fun _ => .error nofun) fun _ => .ok trivial
  exact hsafe.1

/-- No timestamp is within the bound of a time from 2001 on. -/
theorem day_lt (hnow : 978307200000000 ≤ now) (timestamp : UInt32) :
    day < (now - timestamp.toNat).natAbs := by
  have hlt := timestamp.toNat_lt
  rw [day]
  omega

theorem sniffUTP_ne_ok (hnow : 978307200000000 ≤ now) : sniffUTP now b ≠ .ok () := by
  intro hok
  rw [sniffUTP] at hok
  split_ifs at hok
  obtain ⟨first, -, hok⟩ := bind_eq_ok.mp hok
  obtain ⟨typeAndVersion, -, hok⟩ := bind_eq_ok.mp hok
  split_ifs at hok
  obtain ⟨⟨extension, buffer⟩, -, hok⟩ := bind_eq_ok.mp hok
  dsimp only at hok
  split_ifs at hok
  obtain ⟨buffer', -, hok⟩ := bind_eq_ok.mp hok
  obtain ⟨skipped, -, hok⟩ := bind_eq_ok.mp hok
  obtain ⟨⟨timestamp, buffer''⟩, -, hok⟩ := bind_eq_ok.mp hok
  dsimp only at hok
  rw [if_pos (day_lt hnow timestamp)] at hok
  cases hok

/-- **uTP packets are not recognised.** At any time from 2001 on, the sniffer returns for a slice and
recognises it if it is a uTP packet of that time, exactly if it is no such packet and its length is not
negative as an `int32`. -/
theorem sniffUTP_recognises_iff (now : Int) (hnow : 978307200000000 ≤ now) (b : Bytes) :
    (sniffUTP now b ≠ .error .panicked ∧ ∀ p : UtpPacket, b = p.bytes now → sniffUTP now b = .ok ()) ↔
      0 ≤ int32 b.length ∧ ∀ p : UtpPacket, b ≠ p.bytes now := by
  constructor
  · rintro ⟨hreturns, hrecognised⟩
    refine ⟨?_, fun p hp => sniffUTP_ne_ok hnow (hrecognised p hp)⟩
    by_contra hneg
    exact hreturns (sniffUTP_of_negative (not_le.mp hneg))
  · rintro ⟨hnonneg, hother⟩
    exact ⟨sniffUTP_of_nonneg hnonneg, fun p hp => absurd hp (hother p)⟩

/-- A packet of version 2. -/
theorem sniffUTP_recognises_other :
    let b := [0x42, 0, 0, 1, 0x18, 0x1e, 0x40, 0, 0, 0, 0, 0, 0, 0, 0x10, 0, 0, 1, 0, 0]
    sniffUTP 1700000000000000 b ≠ .error .panicked ∧
      ∀ p : UtpPacket, b = p.bytes 1700000000000000 → sniffUTP 1700000000000000 b = .ok () := by
  refine (sniffUTP_recognises_iff 1700000000000000 (by norm_num) _).mpr ⟨?_, fun p hp => ?_⟩
  · rw [int32_eq (by norm_num) (by norm_num)]
    norm_num
  have htype : ∀ type : Fin 5, 0x42 ≠ UInt8.ofNat (16 * type + 1) := by decide
  exact htype p.type (List.cons.inj hp).1

/-- A packet that opens a connection, of November 2023. -/
theorem sniffUTP_misses_syn :
    ∃ p : UtpPacket, p.bytes 1700000000000000 =
        [0x41, 0, 0, 1, 0x18, 0x1e, 0x40, 0, 0, 0, 0, 0, 0, 0, 0x10, 0, 0, 1, 0, 0] ∧
      sniffUTP 1700000000000000 (p.bytes 1700000000000000) = .error errNotBittorrent :=
  ⟨⟨4, [0, 1], [0, 0, 0, 0, 0, 0, 0x10, 0, 0, 1, 0, 0], [], [], rfl, rfl, nofun⟩,
    by decide +kernel, by decide +kernel⟩

end V2RootCore.Bittorrent
