import V2RootCore.Proof.Buf.RawMulti
import V2RootCore.Proof.Quic.Sniff
import V2RootCore.Proof.Tls.ClientHello

/-!
# Client hellos in pieces

A client hello comes in CRYPTO frames that may be in any order, overlap and be spread over the packets of a
datagram. The sniffer puts them together in a buffer, with zeros for what is missing, and tries to read the
result after each packet.
-/

namespace V2RootCore.Quic

open Go Buf RawBuffer Tls

/-- Reading takes these bytes from a buffer and returns this value. -/
def Yields {α : Type} (read : Reading α) (text : Bytes) (a : α) : Prop :=
  ∀ (b : RawBuffer) (rest : Bytes), b.Carries (text ++ rest) →
    ∃ b', read b = .ok (a, b') ∧ b'.Carries rest

namespace Yields

variable {α β : Type} {read : Reading α} {text text' : Bytes} {a : α}

theorem pure (a : α) : Yields (Pure.pure a) [] a := fun b _ hb => ⟨b, rfl, hb⟩

theorem bind {f : α → Reading β} {c : β} (h : Yields read text a) (hf : Yields (f a) text' c) :
    Yields (read >>= f) (text ++ text') c := by
  intro b rest hb
  rw [List.append_assoc] at hb
  obtain ⟨b₁, hread, hb₁⟩ := h b _ hb
  obtain ⟨b₂, hrest, hb₂⟩ := hf b₁ rest hb₁
  exact ⟨b₂, (bind_of_ok hread).trans hrest, hb₂⟩

theorem orFail (h : Yields read text a) (err : Error) : Yields (read.orFail err) text a := by
  intro b rest hb
  obtain ⟨b', hread, hb'⟩ := h b rest hb
  exact ⟨b', by rw [Reading.orFail, hread], hb'⟩

theorem readByte (x : UInt8) : Yields RawBuffer.readByte [x] x := by
  intro b rest hb
  have hlength := hb.length
  rw [List.singleton_append, List.length_cons] at hlength
  have hstart := hb.sound.start_nonneg
  have hstop := hb.sound.stop_le
  have hlt := hb.sound.stop_lt
  have hbyte : byteAt b.v b.start = .ok x := by
    have hget := congrArg List.head? hb.content
    rw [List.head?_drop, List.getElem?_take_of_lt (by omega)] at hget
    rw [byteAt, if_pos ⟨hstart, by omega⟩, List.getD_eq_getElem?_getD, hget]
    rfl
  refine ⟨{ b with start := b.start + 1 }, ?_, hb.advance (n := 1) ?_⟩
  · rw [RawBuffer.readByte, if_neg (by omega), hbyte, ok_bind, int32_eq (by omega) (by omega)]
  · exact Nat.le_add_left 1 _

end Yields

theorem yields_readVarint [VarintReader] (n : Varint) : Yields readVarint n.bytes n.value := by
  intro b rest hb
  have hbytes : b.bytes = .ok (n.bytes ++ rest) :=
    (if_pos ⟨hb.sound.start_nonneg, hb.sound.start_le, hb.sound.stop_le⟩).trans (congrArg _ hb.content)
  refine ⟨_, VarintReader.readVarint_ok n b rest hb.sound.stop_lt hbytes, ?_⟩
  have hnext := hb.advance (n := n.bytes.length) (by rw [List.length_append]; omega)
  rwa [List.drop_left] at hnext

theorem yields_skipVarint [VarintReader] (n : Varint) : Yields skipVarint n.bytes () := by
  rw [← List.append_nil n.bytes]
  exact ((yields_readVarint n).orFail .unexpectedEOF).bind (.pure ())

/-- The frames that a client sends with its hello. -/
inductive Frame where
  | padding
  | ping
  | ack (largest delay count first : Varint) (ranges : List (Varint × Varint))
      (ecn : Option (Varint × Varint × Varint)) (hcount : count.value = ranges.length)
  | crypto (offset length : Varint) (data : Bytes) (hlength : length.value = data.length)

namespace Frame

def type : Frame → UInt8
  | padding => 0x00
  | ping => 0x01
  | ack _ _ _ _ _ none _ => 0x02
  | ack _ _ _ _ _ (some _) _ => 0x03
  | crypto .. => 0x06

def body : Frame → Bytes
  | padding => []
  | ping => []
  | ack largest delay count first ranges ecn _ =>
      largest.bytes ++ (delay.bytes ++ (count.bytes ++ (first.bytes ++
        (ranges.flatMap (fun range => range.1.bytes ++ range.2.bytes) ++
          ecn.elim [] fun counts => counts.1.bytes ++ (counts.2.1.bytes ++ counts.2.2.bytes)))))
  | crypto offset length data _ => offset.bytes ++ (length.bytes ++ data)

def bytes (f : Frame) : Bytes := f.type :: f.body

end Frame

theorem yields_skipAckRanges [VarintReader] (ranges : List (Varint × Varint)) :
    Yields (skipAckRanges ranges.length) (ranges.flatMap fun range => range.1.bytes ++ range.2.bytes) () := by
  induction ranges with
  | nil => exact .pure ()
  | cons range ranges ih =>
      rw [List.flatMap_cons, List.append_assoc]
      exact (yields_skipVarint range.1).bind ((yields_skipVarint range.2).bind ih)

theorem yields_ackFrame [VarintReader] (largest delay count first : Varint) (ranges : List (Varint × Varint))
    (ecn : Option (Varint × Varint × Varint)) (hcount : count.value = ranges.length) :
    Yields (ackFrame (Frame.ack largest delay count first ranges ecn hcount).type)
      (Frame.ack largest delay count first ranges ecn hcount).body () := by
  have hcounts : Yields (if (Frame.ack largest delay count first ranges ecn hcount).type = 0x03 then do
        skipVarint
        skipVarint
        skipVarint
      else Pure.pure ()) (ecn.elim [] fun counts => counts.1.bytes ++ (counts.2.1.bytes ++ counts.2.2.bytes))
      () := by
    cases ecn with
    | none => exact .pure ()
    | some counts =>
        exact (yields_skipVarint counts.1).bind ((yields_skipVarint counts.2.1).bind
          (yields_skipVarint counts.2.2))
  refine (yields_skipVarint largest).bind ((yields_skipVarint delay).bind ?_)
  refine ((yields_readVarint count).orFail _).bind ((yields_skipVarint first).bind ?_)
  rw [hcount]
  exact (yields_skipAckRanges ranges).bind hcounts

/-- The data with a piece at its place, and with zeros up to there. -/
def merge (data : Bytes) (offset : Nat) (piece : Bytes) : Bytes :=
  copyTo (data ++ List.replicate (offset + piece.length - data.length) 0) offset piece

/-- This data was put together. -/
structure Crypto.Represents (s : Crypto) (data : Bytes) : Prop where
  sound : s.Sound
  length : s.cryptoLen = data.length
  data : s.cryptoDataBuf.v.take data.length = data

section Merge

variable {s : Crypto} {data : Bytes}

theorem represents_empty : ({} : Crypto).Represents [] := ⟨sound_empty, rfl, rfl⟩

theorem Crypto.Represents.extendTo (h : s.Represents data) {n : Nat} (hn : n ≤ 32768) :
    ∃ s', s.extendTo n = .ok s' ∧ s'.Represents (data ++ List.replicate (n - data.length) 0) := by
  have hlength := h.length
  have hv := h.sound.length
  have hle := h.sound.le
  rw [Crypto.extendTo, hlength]
  by_cases hlt : (data.length : Int) < n
  · have hstop : s.cryptoDataBuf.stop = data.length := h.sound.stop.trans hlength
    have hdiff : int32 ((n : Int) - data.length) = ((n - data.length : Nat) : Int) := by
      rw [int32_eq (by omega) (by omega)]
      omega
    have hextend := extend_eq h.sound.sound (by omega) (n := n - data.length) (by omega)
    rw [if_pos hlt, h.sound.cap_eq, if_neg (by omega), hdiff, hextend, hstop, Int.toNat_natCast]
    have hcopy : (copyTo s.cryptoDataBuf.v data.length (List.replicate (n - data.length) 0)).take n =
        data ++ List.replicate (n - data.length) 0 := by
      rw [copyTo, h.data, List.take_left']
      rw [List.length_append, List.length_replicate]
      omega
    refine ⟨_, rfl, ⟨h.sound.start, ?_, ?_, ?_, ?_⟩, ?_, ?_⟩
    · dsimp only
      omega
    · exact Int.natCast_nonneg n
    · dsimp only
      omega
    · dsimp only
      rw [length_copyTo, hv]
      rw [List.length_replicate]
      omega
    · rw [List.length_append, List.length_replicate]
      dsimp only
      omega
    · dsimp only
      rw [List.length_append, List.length_replicate, show data.length + (n - data.length) = n by omega, hcopy]
  · rw [if_neg hlt, show n - data.length = 0 by omega, List.replicate_zero, List.append_nil]
    exact ⟨s, rfl, h⟩

theorem take_copyTo {v piece : Bytes} {offset n : Nat} (hpiece : offset + piece.length ≤ n)
    (hn : n ≤ v.length) : (copyTo v offset piece).take n = copyTo (v.take n) offset piece := by
  have hfront : (v.take offset ++ piece).length = offset + piece.length := by
    rw [List.length_append, List.length_take, min_eq_left (by omega)]
  rw [copyTo, copyTo, List.take_append, List.take_of_length_le (by omega), hfront, List.take_take,
    min_eq_left (by omega), List.drop_take]

theorem Crypto.Represents.copyTo (h : s.Represents data) {offset : Nat} {piece : Bytes}
    (hfits : offset + piece.length ≤ data.length) :
    ({ s with cryptoDataBuf := { s.cryptoDataBuf with v := copyTo s.cryptoDataBuf.v offset piece } } :
      Crypto).Represents (Go.copyTo data offset piece) := by
  have hlength := h.length
  have hle := h.sound.le
  have hv := h.sound.length
  refine ⟨h.sound.withData (by omega), ?_, ?_⟩
  · rw [length_copyTo hfits]
    exact hlength
  · dsimp only
    rw [length_copyTo hfits, take_copyTo hfits (by omega), h.data]

/-- The data of a CRYPTO frame is missed if nothing is left of the packet, and is put to its place
otherwise. -/
theorem Crypto.Represents.readData (h : s.Represents data) {b : RawBuffer} {offset : Nat} {piece rest : Bytes}
    (hb : b.Carries (piece ++ rest)) (hfits : offset + piece.length ≤ 32768) :
    (piece ++ rest = [] → s.readData offset piece.length b = .error .unexpectedEOF) ∧
      (piece ++ rest ≠ [] → ∃ s' b', s.readData offset piece.length b = .ok (s', b') ∧
        s'.Represents (merge data offset piece) ∧ b'.Carries rest) := by
  obtain ⟨s', hextend, hs'⟩ := h.extendTo hfits
  have hint : ∀ n : Nat, n ≤ 32768 → int32 n = n := fun n hn => int32_eq (by omega) (by omega)
  have hrange : s'.cryptoDataBuf.bytesRange (int32 offset) ((offset + piece.length : Nat) : Int) =
      .ok ((offset : Int), ((offset + piece.length : Nat) : Int)) := by
    have hbytes := hs'.sound.bytesRange_eq offset (offset + piece.length : Nat)
    have hplace : ∀ n : Nat, place n s'.cryptoLen = n :=
      fun n => if_neg (Int.not_lt.mpr (Int.natCast_nonneg n))
    rw [hint _ hfits, hint _ (show offset ≤ 32768 by omega), hplace, hplace, if_pos (by omega)] at hbytes
    rwa [hint _ (by omega)]
  have hcurrent : int32 ((offset : Int) + piece.length) = ((offset + piece.length : Nat) : Int) := by
    rw [← Nat.cast_add, hint _ hfits]
  have htake : (((offset + piece.length : Nat) : Int) - offset).toNat = piece.length := by omega
  rw [Crypto.readData, hcurrent, hextend]
  change (_ → (s'.cryptoDataBuf.bytesRange _ _ >>= _) = _) ∧
    (_ → ∃ s'' b', (s'.cryptoDataBuf.bytesRange _ _ >>= _) = _ ∧ _)
  rw [hrange, ok_bind]
  dsimp only
  rw [htake, Int.toNat_natCast]
  constructor
  · intro hnil
    have hread : RawBuffer.read piece.length b = .error .eof := by
      rw [RawBuffer.read, if_pos]
      rw [hb.len, hnil]
      rfl
    rw [Reading.orFail, hread]
    rfl
  · intro hne
    obtain ⟨b', hread, hb'⟩ := hb.read hne piece.length
    rw [List.take_left] at hread
    rw [List.drop_left] at hb'
    refine ⟨_, b', by rw [Reading.orFail, hread]; rfl, hs'.copyTo ?_, hb'⟩
    rw [List.length_append, List.length_replicate]
    omega

end Merge

section Frames

variable {s : Crypto} {data : Bytes}

namespace Frame

/-- What is put together after a frame. -/
def apply (data : Bytes) : Frame → Bytes
  | crypto offset _ piece _ => merge data offset.value piece
  | _ => data

/-- The data of the frame ends in the buffer. -/
def Fits : Frame → Prop
  | crypto offset _ piece _ => offset.value + piece.length ≤ 32768
  | _ => True

/-- A CRYPTO frame without data. -/
def isEmpty : Frame → Bool
  | crypto _ _ piece _ => piece = []
  | _ => false

end Frame

theorem cryptoFields_spec [VarintReader] (offset length : Varint) {b : RawBuffer} {piece rest : Bytes}
    (hlength : length.value = piece.length)
    (hb : b.Carries (offset.bytes ++ (length.bytes ++ (piece ++ rest)))) :
    ∃ b', cryptoFields b = .ok ((offset.value, piece.length), b') ∧ b'.Carries (piece ++ rest) := by
  obtain ⟨b₁, hoffset, hb₁⟩ := (yields_readVarint offset).orFail .unexpectedEOF b _ hb
  obtain ⟨b₂, hlen, hb₂⟩ := (yields_readVarint length).orFail .unexpectedEOF b₁ _ hb₁
  have hleft : uint64 b₂.len = (piece ++ rest).length := by
    have hlt := hb₂.sound.stop_lt
    have hstart := hb₂.sound.start_nonneg
    have hcontent := hb₂.length
    rw [hb₂.len]
    exact Int.emod_eq_of_lt (Int.natCast_nonneg _) (by omega)
  refine ⟨b₂, ?_, hb₂⟩
  rw [cryptoFields, bind_of_ok hoffset, bind_of_ok hlen, hlength]
  change (if uint64 b₂.len < (piece.length : Int) then throw Error.unexpectedEOF
    else Pure.pure (offset.value, piece.length) : Reading (Nat × Nat)) b₂ = _
  rw [hleft, if_neg]
  · rfl
  · rw [List.length_append]
    omega

/-- The data of a frame is read, unless it has none and is at the end of a packet. -/
theorem frameBody_spec [VarintReader] (h : s.Represents data) {f : Frame} (hf : f.Fits) {b : RawBuffer}
    {rest : Bytes} (hb : b.Carries (f.body ++ rest)) :
    (f.isEmpty = true ∧ rest = [] → frameBody s f.type b = .error .unexpectedEOF) ∧
      (¬(f.isEmpty = true ∧ rest = []) → ∃ s' b', frameBody s f.type b = .ok (s', b') ∧
        s'.Represents (f.apply data) ∧ b'.Carries rest) := by
  cases f with
  | padding => exact ⟨fun hempty => (nomatch hempty.1), fun _ => ⟨s, b, rfl, h, hb⟩⟩
  | ping => exact ⟨fun hempty => (nomatch hempty.1), fun _ => ⟨s, b, rfl, h, hb⟩⟩
  | ack largest delay count first ranges ecn hcount =>
      refine ⟨fun hempty => (nomatch hempty.1), fun _ => ?_⟩
      obtain ⟨b', hread, hb'⟩ := yields_ackFrame largest delay count first ranges ecn hcount b rest hb
      refine ⟨s, b', ?_, h, hb'⟩
      cases ecn with
      | none => exact bind_of_ok hread
      | some counts => exact bind_of_ok hread
  | crypto offset length piece hlength =>
      rw [Frame.body, List.append_assoc, List.append_assoc] at hb
      obtain ⟨b', hread, hb'⟩ := cryptoFields_spec offset length hlength hb
      have hbody : frameBody s 0x06 b = s.readData offset.value piece.length b' := bind_of_ok hread
      obtain ⟨hmissed, hmerged⟩ := h.readData hb' hf
      have hnil : (Frame.crypto offset length piece hlength).isEmpty = true ∧ rest = [] ↔ piece ++ rest = [] := by
        rw [Frame.isEmpty, decide_eq_true_eq, List.append_eq_nil_iff]
      rw [hnil]
      refine ⟨fun hempty => hbody.trans (hmissed hempty), fun hne => ?_⟩
      obtain ⟨s', b'', hdata, hs', hb''⟩ := hmerged hne
      exact ⟨s', b'', hbody.trans hdata, hs', hb''⟩

/-- Padding is skipped up to the next frame, or to the end. -/
theorem readFrameType_spec {b : RawBuffer} {f : Frame} {fs : List Frame} {fuel : Nat}
    (hfuel : fs.length < fuel) (hb : b.Carries ((f :: fs).flatMap Frame.bytes)) :
    ∃ pads g rest b', f :: fs = pads ++ g :: rest ∧ (∀ pad ∈ pads, pad = .padding) ∧
      readFrameType fuel b = .ok (g.type, b') ∧ b'.Carries (g.body ++ rest.flatMap Frame.bytes) := by
  induction fuel generalizing b f fs with
  | zero => exact absurd hfuel (Nat.not_lt_zero _)
  | succ fuel ih =>
      obtain ⟨b₁, hread, hb₁⟩ := Yields.readByte f.type b (f.body ++ fs.flatMap Frame.bytes) hb
      have hstep : readFrameType (fuel + 1) b =
          (if f.type = 0 ∧ ¬b₁.isEmpty then readFrameType fuel else Pure.pure f.type) b₁ := bind_of_ok hread
      rw [hstep]
      by_cases hskip : f.type = 0 ∧ ¬b₁.isEmpty
      · obtain ⟨htype, hne⟩ := hskip
        obtain rfl : f = .padding := by
          match f, htype with
          | .padding, _ => rfl
          | .ack _ _ _ _ _ none _, htype => cases htype
          | .ack _ _ _ _ _ (some _) _, htype => cases htype
        rw [hb₁.isEmpty_iff] at hne
        cases fs with
        | nil => exact absurd rfl hne
        | cons f' fs =>
            obtain ⟨pads, g, rest, b', hfs, hpads, htype', hb'⟩ := ih (Nat.lt_of_succ_lt_succ hfuel) hb₁
            refine ⟨.padding :: pads, g, rest, b', congrArg _ hfs, ?_, ?_, hb'⟩
            · exact List.forall_mem_cons.mpr ⟨rfl, hpads⟩
            · rw [if_pos ⟨htype, mt hb₁.isEmpty_iff.mp hne⟩]
              exact htype'
      · rw [if_neg hskip]
        exact ⟨[], f, fs, b₁, rfl, nofun, rfl, hb₁⟩

/-- The last frame is a CRYPTO frame without data. -/
def endsEmpty (fs : List Frame) : Bool := fs.getLast?.any Frame.isEmpty

theorem foldl_apply_padding {pads : List Frame} (hpads : ∀ pad ∈ pads, pad = .padding) (data : Bytes) :
    pads.foldl Frame.apply data = data := by
  induction pads with
  | nil => rfl
  | cons pad pads ih =>
      rw [List.foldl_cons, hpads pad List.mem_cons_self]
      exact ih fun pad hmem => hpads pad (List.mem_cons_of_mem _ hmem)

theorem flatMap_bytes_eq_nil {fs : List Frame} : fs.flatMap Frame.bytes = [] ↔ fs = [] := by
  cases fs with
  | nil => exact iff_of_true rfl rfl
  | cons f fs => exact iff_of_false nofun nofun

theorem length_le_flatMap_bytes (fs : List Frame) : fs.length ≤ (fs.flatMap Frame.bytes).length := by
  induction fs with
  | nil => exact le_rfl
  | cons f fs ih =>
      rw [List.flatMap_cons, List.length_append, List.length_cons, Frame.bytes, List.length_cons]
      omega

/-- The frames of a packet: the sniffer fails if the last one is a CRYPTO frame without data, and has put
the data of all of them together otherwise. -/
theorem frames_loop_spec [VarintReader] {fs : List Frame} (hfs : ∀ f ∈ fs, f.Fits) (h : s.Represents data)
    {b : RawBuffer} (hb : b.Carries (fs.flatMap Frame.bytes)) {fuel : Nat} (hfuel : fs.length < fuel) :
    (endsEmpty fs = true → loop .panicked frame fuel (s, b) = .error .unexpectedEOF) ∧
      (¬endsEmpty fs = true → ∃ s', loop .panicked frame fuel (s, b) = .ok s' ∧
        s'.Represents (fs.foldl Frame.apply data)) := by
  induction fuel generalizing fs s data b with
  | zero => exact absurd hfuel (Nat.not_lt_zero _)
  | succ fuel ih =>
      rw [loop, frame]
      dsimp only
      cases fs with
      | nil =>
          rw [if_pos (hb.isEmpty_iff.mpr rfl)]
          exact ⟨fun hends => absurd hends Bool.false_ne_true, fun _ => ⟨s, rfl, h⟩⟩
      | cons f fs =>
          have hne : ¬b.isEmpty = true := mt hb.isEmpty_iff.mp (mt flatMap_bytes_eq_nil.mp (List.cons_ne_nil _ _))
          have hlength : fs.length < b.v.length + 1 := by
            have hcount := length_le_flatMap_bytes (f :: fs)
            have hcontent := hb.length
            have hstart := hb.sound.start_nonneg
            have hstop := hb.sound.stop_le
            rw [List.length_cons] at hcount
            omega
          obtain ⟨pads, g, rest, b₁, hsplit, hpads, htype, hb₁⟩ := readFrameType_spec hlength hb
          have hfold : (f :: fs).foldl Frame.apply data = rest.foldl Frame.apply (g.apply data) := by
            rw [hsplit, List.foldl_append, foldl_apply_padding hpads, List.foldl_cons]
          have hmem : ∀ f' ∈ g :: rest, f'.Fits := by
            intro f' hf'
            refine hfs f' ?_
            rw [hsplit]
            exact List.mem_append_right _ hf'
          have hcount : rest.length < fuel := by
            have hlengths := congrArg List.length hsplit
            rw [List.length_append, List.length_cons, List.length_cons] at hlengths
            rw [List.length_cons] at hfuel
            omega
          obtain ⟨hmissed, hmerged⟩ := frameBody_spec h (hmem g List.mem_cons_self) hb₁
          rw [flatMap_bytes_eq_nil] at hmissed hmerged
          have hends : endsEmpty (f :: fs) = endsEmpty (g :: rest) := by
            rw [endsEmpty, hsplit, List.getLast?_append_cons]
            rfl
          rw [if_neg hne, htype, ok_bind, hfold, hends]
          dsimp only
          cases rest with
          | nil =>
              refine ⟨fun hempty => ?_, fun hne => ?_⟩
              · rw [hmissed ⟨hempty, rfl⟩]
                rfl
              · obtain ⟨s', b', hbody, hs', hb'⟩ := hmerged fun hempty => hne hempty.1
                rw [hbody]
                exact (ih (fun _ hf' => absurd hf' List.not_mem_nil) hs' hb' hcount).2 Bool.false_ne_true
          | cons g' rest =>
              obtain ⟨s', b', hbody, hs', hb'⟩ := hmerged fun hnil => List.cons_ne_nil _ _ hnil.2
              rw [hbody]
              have hlast : endsEmpty (g :: g' :: rest) = endsEmpty (g' :: rest) := by
                rw [endsEmpty, List.getLast?_cons_cons]
                rfl
              rw [hlast]
              exact ih (fun f' hf' => hmem f' (List.mem_cons_of_mem _ hf')) hs' hb' hcount

end Frames

/-- A packet at the beginning of a payload is an initial packet that is opened to this plaintext. -/
def Opens [VarintReader] (suite : Suite) (payload plaintext rest : Bytes) : Prop :=
  ∃ header buffer, readHeader payload (fromBytes payload) = .ok (header, buffer) ∧
    header.isQuicInitial = true ∧ header.packetLen ≤ buffer.len ∧
    decrypt suite payload header (payload.length - buffer.len) buffer = .ok plaintext ∧
    sliceFrom payload (payload.length - buffer.len + header.packetLen) = .ok rest

/-- Packets one after another, with the frames in each of them. -/
inductive Datagram [VarintReader] (suite : Suite) : Bytes → List (List Frame) → Prop where
  | nil : Datagram suite [] []
  | cons {payload rest : Bytes} {fs : List Frame} {packets : List (List Frame)}
      (hopens : Opens suite payload (fs.flatMap Frame.bytes) rest) (hrest : Datagram suite rest packets) :
      Datagram suite payload (fs :: packets)

/-- What the sniffer finds, by the data that is put together. -/
def outcome : Bytes → List (List Frame) → Except Error Bytes
  | _, [] => .error errProtoNeedMoreData
  | data, fs :: packets =>
      if endsEmpty fs then .error .unexpectedEOF
      else
        match readClientHello (fs.foldl Frame.apply data) with
        | .ok name => .ok name
        | .error _ => outcome (fs.foldl Frame.apply data) packets

section Packets

variable {suite : Suite} {s : Crypto} {data payload rest plaintext : Bytes}

theorem length_of_decrypt {header : Header} {hdrLen : Int} {buffer : RawBuffer}
    (h : decrypt suite payload header hdrLen buffer = .ok plaintext) : plaintext.length ≤ header.packetLen := by
  obtain ⟨⟨mask, cache⟩, -, h⟩ := bind_eq_ok.mp h
  obtain ⟨sample, -, h⟩ := bind_eq_ok.mp h
  obtain ⟨x, -, h⟩ := bind_eq_ok.mp h
  obtain ⟨b, -, h⟩ := bind_eq_ok.mp h
  obtain ⟨typeByte, -, h⟩ := bind_eq_ok.mp h
  obtain ⟨b, -, h⟩ := bind_eq_ok.mp h
  obtain ⟨⟨nonce, cache⟩, -, h⟩ := bind_eq_ok.mp h
  obtain ⟨⟨packetNumber, buffer⟩, -, h⟩ := bind_eq_ok.mp h
  obtain ⟨sealed, hsealed, h⟩ := bind_eq_ok.mp h
  obtain ⟨additional, -, h⟩ := bind_eq_ok.mp h
  obtain ⟨hlow, hle, hhigh⟩ := slice_eq_ok hsealed
  have hlength := (safe_slice hlow hle hhigh).2 _ hsealed
  split at h
  · rename_i decrypted hopen
    cases h
    have hplain := suite.openData_length _ _ _ _ _ _ hopen
    omega
  · cases h

theorem carries_fromBytes (hlength : plaintext.length < 2 ^ 31) : (fromBytes plaintext).Carries plaintext := by
  have hstop : (fromBytes plaintext).stop = plaintext.length := int32_eq (by omega) (by omega)
  refine ⟨(sound_fromBytes hlength).1, hlength, ?_⟩
  rw [hstop, Int.toNat_natCast]
  exact List.take_length

variable [VarintReader] {packets : List (List Frame)}

theorem length_of_opens (h : Opens suite payload plaintext rest) : plaintext.length < 2 ^ 31 := by
  obtain ⟨header, buffer, -, -, hfits, hdecrypt, -⟩ := h
  have hle := length_of_decrypt hdecrypt
  have hlt : buffer.len < 2 ^ 31 := (int32_range _).2
  omega

theorem packet_of_opens (h : Opens suite payload plaintext rest) (s : Crypto) :
    packet suite (s, payload) = readPlaintext s rest plaintext := by
  obtain ⟨header, buffer, hread, hinitial, hfits, hdecrypt, hrest⟩ := h
  have hne : payload ≠ [] := by
    rintro rfl
    have hbyte : readByte.orFail errNotQuic (fromBytes []) = .error errNotQuic := by
      decide +kernel
    exact nomatch (bind_of_error hbyte).symm.trans hread
  rw [packet]
  dsimp only
  rw [if_neg hne, hread, ok_bind]
  dsimp only
  rw [if_neg (by omega), hrest, ok_bind, if_neg (not_not_intro hinitial), hdecrypt, ok_bind]

/-- The frames of a packet are put together and read. -/
theorem readPlaintext_spec (h : s.Represents data) {fs : List Frame} (hfs : ∀ f ∈ fs, f.Fits)
    (hlength : (fs.flatMap Frame.bytes).length < 2 ^ 31) (rest : Bytes) :
    (endsEmpty fs = true → readPlaintext s rest (fs.flatMap Frame.bytes) = .error .unexpectedEOF) ∧
      (¬endsEmpty fs = true → ∃ s', s'.Represents (fs.foldl Frame.apply data) ∧
        readPlaintext s rest (fs.flatMap Frame.bytes) =
          match readClientHello (fs.foldl Frame.apply data) with
          | .ok name => .ok (.inl name)
          | .error _ => .ok (.inr (s', rest))) := by
  have hcount := Nat.lt_succ_of_le (length_le_flatMap_bytes fs)
  obtain ⟨hmissed, hmerged⟩ := frames_loop_spec hfs h (carries_fromBytes hlength) hcount
  refine ⟨fun hends => ?_, fun hends => ?_⟩
  · rw [readPlaintext, frames, hmissed hends]
    rfl
  · obtain ⟨s', hframes, hs'⟩ := hmerged hends
    have hslice : slice s'.cryptoDataBuf.v 0 s'.cryptoLen = .ok (fs.foldl Frame.apply data) := by
      have hle := hs'.sound.le
      have hv := hs'.sound.length
      rw [slice, if_pos ⟨le_rfl, hs'.sound.nonneg, by omega⟩, hs'.length, Int.toNat_natCast, hs'.data]
      rfl
    refine ⟨s', hs', ?_⟩
    rw [readPlaintext, frames, hframes, ok_bind, hs'.sound.bytesRange_all, ok_bind]
    dsimp only
    rw [hslice, ok_bind]
    have hsafe := (safe_readClientHello (fs.foldl Frame.apply data)).1
    generalize readClientHello (fs.foldl Frame.apply data) = result at hsafe
    split
    · rfl
    · exact absurd rfl hsafe
    · rfl

theorem Opens.length_lt (h : Opens suite payload plaintext rest) :
    rest.length < payload.length := by
  obtain ⟨header, buffer, hread, -, -, -, hrest⟩ := h
  have hlen := len_of_readHeader hread
  have hpacket := packetLen_of_readHeader hread
  obtain ⟨hlow, hle, -⟩ := slice_eq_ok hrest
  have hlength := (safe_sliceFrom hlow hle).2 _ hrest
  dsimp only at hlength hpacket
  omega

theorem Datagram.length_le (h : Datagram suite payload packets) :
    packets.length ≤ payload.length := by
  induction h with
  | nil => exact le_rfl
  | cons hopens _ ih => exact Nat.succ_le_of_lt (ih.trans_lt hopens.length_lt)

theorem loop_outcome (h : Datagram suite payload packets)
    (hpackets : ∀ fs ∈ packets, ∀ f ∈ fs, f.Fits) (hs : s.Represents data) {fuel : Nat}
    (hfuel : packets.length < fuel) :
    loop .panicked (packet suite) fuel (s, payload) = outcome data packets := by
  induction h generalizing s data fuel with
  | nil =>
      obtain ⟨fuel, rfl⟩ := Nat.exists_eq_succ_of_ne_zero (Nat.ne_of_gt hfuel)
      rfl
  | @cons payload rest fs packets hopens hrest ih =>
      obtain ⟨fuel, rfl⟩ := Nat.exists_eq_succ_of_ne_zero (Nat.ne_of_gt (Nat.zero_lt_of_lt hfuel))
      have hfs := hpackets fs List.mem_cons_self
      obtain ⟨hmissed, hread⟩ := readPlaintext_spec hs hfs (length_of_opens hopens) rest
      rw [loop, packet_of_opens hopens, outcome]
      by_cases hends : endsEmpty fs = true
      · rw [hmissed hends, if_pos hends]
      · obtain ⟨s', hs', hplaintext⟩ := hread hends
        rw [hplaintext, if_neg hends]
        cases readClientHello (fs.foldl Frame.apply data) with
        | ok name => rfl
        | error err =>
            exact ih (fun fs hmem => hpackets fs (List.mem_cons_of_mem _ hmem)) hs'
              (Nat.lt_of_succ_lt_succ hfuel)

theorem sniffQUIC_eq_ok_iff (h : Datagram suite payload packets)
    (hpackets : ∀ fs ∈ packets, ∀ f ∈ fs, f.Fits) (name : Bytes) :
    sniffQUIC suite payload = .ok name ↔ outcome [] packets = .ok name := by
  have hle := h.length_le
  rw [sniffQUIC]
  split_ifs with hnil
  · subst hnil
    rw [List.length_eq_zero_iff.mp (Nat.le_zero.mp hle)]
    refine iff_of_false (fun hok => ?_) fun hok => ?_ <;> cases hok
  · rw [loop_outcome h hpackets represents_empty (Nat.lt_succ_of_le hle)]

end Packets

/-- A client hello with a server name that fits in the buffer of the sniffer. -/
structure Hello where
  bytes : Bytes
  name : Bytes
  length_le : bytes.length ≤ 32767
  name_ne : name ≠ []
  reads : readClientHello bytes = .ok name

/-- A CRYPTO frame has the bytes of a message at its offset. -/
def Frame.IsSlice (message : Bytes) : Frame → Prop
  | .crypto offset _ piece _ =>
      offset.value + piece.length ≤ message.length ∧ (message.drop offset.value).take piece.length = piece
  | _ => True

/-- The frame has the byte at an index. -/
def Frame.Has (i : Nat) : Frame → Prop
  | .crypto offset _ piece _ => offset.value ≤ i ∧ i < offset.value + piece.length
  | _ => False

/-- Where the data of a frame ends. -/
def Frame.stop : Frame → Nat
  | .crypto offset _ piece _ => offset.value + piece.length
  | _ => 0

/-- The frames have all bytes before the end of each of them. -/
def Gapless (fs : List Frame) : Prop := ∀ f ∈ fs, ∀ i < f.stop, ∃ g ∈ fs, g.Has i

section Cover

variable {message data : Bytes} {fs : List Frame} {f : Frame}

theorem getElem?_copyTo {v piece : Bytes} {offset : Nat} (hpiece : offset + piece.length ≤ v.length) (i : Nat) :
    (copyTo v offset piece)[i]? =
      if offset ≤ i ∧ i < offset + piece.length then piece[i - offset]? else v[i]? := by
  have hfront : (v.take offset).length = offset := List.length_take_of_le (by omega)
  rw [copyTo, List.append_assoc]
  by_cases hlow : offset ≤ i
  · rw [List.getElem?_append_right (by omega), hfront]
    by_cases hhigh : i < offset + piece.length
    · rw [if_pos ⟨hlow, hhigh⟩, List.getElem?_append_left (by omega)]
    · rw [if_neg fun h => hhigh h.2, List.getElem?_append_right (by omega), List.getElem?_drop]
      congr 1
      omega
  · rw [if_neg fun h => hlow h.1, List.getElem?_append_left (by omega), List.getElem?_take_of_lt (by omega)]

theorem length_merge (data : Bytes) (offset : Nat) (piece : Bytes) :
    (merge data offset piece).length = max data.length (offset + piece.length) := by
  rw [merge, length_copyTo, List.length_append, List.length_replicate]
  · omega
  · rw [List.length_append, List.length_replicate]
    omega

/-- The data is as long as a part of the message and has all of the bytes that the frames have. -/
structure Covers (message : Bytes) (fs : List Frame) (data : Bytes) : Prop where
  length_le : data.length ≤ message.length
  has : ∀ f ∈ fs, ∀ i, f.Has i → i < data.length ∧ data[i]? = message[i]?
  exists_lt : ∀ i < data.length, ∃ f ∈ fs, i < f.stop

theorem Covers.append (h : Covers message fs data) (hnone : ∀ i, ¬f.Has i) :
    Covers message (fs ++ [f]) data := by
  refine ⟨h.length_le, fun f' hmem i hi => ?_, fun i hi => ?_⟩
  · rcases List.mem_append.mp hmem with hmem | hmem
    · exact h.has f' hmem i hi
    · rw [List.mem_singleton.mp hmem] at hi
      exact absurd hi (hnone i)
  · obtain ⟨f', hmem, hlt⟩ := h.exists_lt i hi
    exact ⟨f', List.mem_append_left _ hmem, hlt⟩

theorem Covers.apply (h : Covers message fs data) (hf : f.IsSlice message) :
    Covers message (fs ++ [f]) (f.apply data) := by
  cases f with
  | padding => exact h.append fun _ => id
  | ping => exact h.append fun _ => id
  | ack => exact h.append fun _ => id
  | crypto offset length piece hlength =>
      obtain ⟨hle, hslice⟩ := hf
      have hmerge : ∀ i, (merge data offset.value piece)[i]? =
          if offset.value ≤ i ∧ i < offset.value + piece.length then message[i]?
          else (data ++ List.replicate (offset.value + piece.length - data.length) 0)[i]? := by
        intro i
        have hroom : offset.value + piece.length ≤
            (data ++ List.replicate (offset.value + piece.length - data.length) 0).length := by
          rw [List.length_append, List.length_replicate]
          omega
        rw [merge, getElem?_copyTo hroom]
        split_ifs with hi
        · rw [← congrArg (fun piece : Bytes => piece[i - offset.value]?) hslice,
            List.getElem?_take_of_lt (by omega), List.getElem?_drop, Nat.add_sub_cancel' hi.1]
        · rfl
      have hlength := length_merge data offset.value piece
      refine ⟨hlength.trans_le (max_le h.length_le hle), fun f hmem i hi => ?_, fun i hi => ?_⟩
      · rw [Frame.apply, hlength, hmerge]
        rcases List.mem_append.mp hmem with hmem | hmem
        · obtain ⟨hlt, hget⟩ := h.has f hmem i hi
          refine ⟨hlt.trans_le (le_max_left _ _), ?_⟩
          split_ifs
          · rfl
          · rw [List.getElem?_append_left hlt, hget]
        · obtain rfl := List.mem_singleton.mp hmem
          exact ⟨hi.2.trans_le (le_max_right _ _), if_pos hi⟩
      · rw [Frame.apply, hlength] at hi
        rcases lt_max_iff.mp hi with hlt | hlt
        · obtain ⟨f, hmem, hstop⟩ := h.exists_lt i hlt
          exact ⟨f, List.mem_append_left _ hmem, hstop⟩
        · exact ⟨_, List.mem_append_right _ List.mem_cons_self, hlt⟩

theorem covers_foldl (hfs : ∀ f ∈ fs, f.IsSlice message) {before : List Frame}
    (h : Covers message before data) :
    Covers message (before ++ fs) (fs.foldl Frame.apply data) := by
  induction fs generalizing before data with
  | nil => rwa [List.append_nil]
  | cons f fs ih =>
      rw [List.append_cons, List.foldl_cons]
      exact ih (fun f hmem => hfs f (List.mem_cons_of_mem _ hmem)) (h.apply (hfs f List.mem_cons_self))

/-- What was put together from frames without gaps is the beginning of the message. -/
theorem Covers.eq_take (h : Covers message fs data) (hgapless : Gapless fs) :
    data = message.take data.length := by
  refine List.ext_getElem? fun i => ?_
  by_cases hi : i < data.length
  · obtain ⟨f, hmem, hlt⟩ := h.exists_lt i hi
    obtain ⟨g, hg, hhas⟩ := hgapless f hmem i hlt
    rw [(h.has g hg i hhas).2, List.getElem?_take_of_lt hi]
  · rw [List.getElem?_eq_none (by omega), List.getElem?_eq_none (by rw [List.length_take]; omega)]

/-- All bytes of the message are there, and are put together. -/
theorem Covers.length_eq (h : Covers message fs data)
    (hall : ∀ i < message.length, ∃ f ∈ fs, f.Has i) : data.length = message.length := by
  refine h.length_le.antisymm (not_lt.mp fun hlt => ?_)
  obtain ⟨f, hmem, hhas⟩ := hall data.length hlt
  exact lt_irrefl _ (h.has f hmem _ hhas).1

end Cover

/-- Packet by packet the data is a longer beginning of the client hello, which can not be read before it is
complete. -/
theorem outcome_of_gapless {hello : Hello} {complete : Prop} (before : List Frame)
    {packets : List (List Frame)} {data : Bytes}
    (hslices : ∀ fs ∈ packets, ∀ f ∈ fs, f.IsSlice hello.bytes) (hdata : Covers hello.bytes before data)
    (hcomplete : complete → ∀ i < hello.bytes.length, ∃ f ∈ before ++ packets.flatten, f.Has i)
    (hgapless : ∀ n, Gapless (before ++ (packets.take n).flatten))
    (hends : complete → ∀ fs ∈ packets, endsEmpty fs = false) (hbefore : data.length < hello.bytes.length) :
    (complete → outcome data packets = .ok hello.name) ∧
      ∀ found, outcome data packets = .ok found → found = hello.name := by
  induction packets generalizing before data with
  | nil =>
      refine ⟨fun h => ?_, fun found hfound => by cases hfound⟩
      have hall := hcomplete h
      rw [List.flatten_nil, List.append_nil] at hall
      exact absurd (hdata.length_eq hall) hbefore.ne
  | cons fs packets ih =>
      rw [outcome]
      split_ifs with hempty
      · refine ⟨fun h => ?_, fun found hfound => by cases hfound⟩
        exact absurd hempty (Bool.eq_false_iff.mp (hends h fs List.mem_cons_self))
      · have hfs := covers_foldl (hslices fs List.mem_cons_self) hdata
        have hfirst := hgapless 1
        rw [List.take_succ_cons, List.take_zero, List.flatten_cons, List.flatten_nil, List.append_nil] at hfirst
        have htake := hfs.eq_take hfirst
        rcases hfs.length_le.lt_or_eq with hlt | heq
        · have hnone : ∀ found, readClientHello (fs.foldl Frame.apply data) ≠ .ok found := by
            rw [htake]
            exact fun found => readClientHello_take hello.reads hlt
          cases hread : readClientHello (fs.foldl Frame.apply data) with
          | ok found => exact absurd hread (hnone found)
          | error err =>
              refine ih (before ++ fs) (fun fs hmem => hslices fs (List.mem_cons_of_mem _ hmem)) hfs ?_
                (fun n => ?_) (fun h fs hmem => hends h fs (List.mem_cons_of_mem _ hmem)) hlt
              · rwa [List.append_assoc, ← List.flatten_cons]
              · have hnext := hgapless (n + 1)
                rwa [List.take_succ_cons, List.flatten_cons, ← List.append_assoc] at hnext
        · rw [htake, heq, List.take_length, hello.reads]
          exact ⟨fun _ => rfl, fun found hfound => (Except.ok.inj hfound).symm⟩

/-- A payload with a client hello in its frames. -/
structure Transmission [VarintReader] (suite : Suite) (hello : Hello) where
  payload : Bytes
  packets : List (List Frame)
  datagram : Datagram suite payload packets
  slices : ∀ fs ∈ packets, ∀ f ∈ fs, f.IsSlice hello.bytes

namespace Transmission

section Correct

variable [VarintReader] {suite : Suite} {hello : Hello} (t : Transmission suite hello)

/-- The frames have all bytes of the client hello. -/
def Complete : Prop := ∀ i < hello.bytes.length, ∃ f ∈ t.packets.flatten, f.Has i

/-- The server name is found if the client hello is complete, and no other name is found. -/
def Correct : Prop :=
  (t.Complete → sniffQUIC suite t.payload = .ok hello.name) ∧
    ∀ found, sniffQUIC suite t.payload = .ok found → found = hello.name

theorem fits (fs : List Frame) (hfs : fs ∈ t.packets) (f : Frame) (hf : f ∈ fs) : f.Fits := by
  have hlength := hello.length_le
  have hslice := t.slices fs hfs f hf
  cases f with
  | crypto offset length piece hpiece => exact hslice.1.trans (by omega)
  | padding => trivial
  | ping => trivial
  | ack => trivial

end Correct

section Plain

attribute [local instance] plainVarints

theorem ab_ne_nil : ascii "ab" ≠ [] := by decide

/-- A client hello with the server name `ab`. -/
def helloAb : Hello where
  bytes := List.replicate 43 0 ++ [11, 0, 0, 0, 7, 0, 5, 0, 0, 2, 97, 98]
  name := ascii "ab"
  length_le := by decide
  name_ne := ab_ne_nil
  reads := by decide +kernel

/-- A packet with these frames, for the suite that does not encrypt. -/
def plainPacket (fs : List Frame) : Bytes :=
  [0xc0, 0, 0, 0, 1, 0, 0, 0, 0x40, UInt8.ofNat ((fs.flatMap Frame.bytes).length + 17), 0] ++
    fs.flatMap Frame.bytes ++ List.replicate 16 0

/-- The second quarter of the message before the first one. -/
def firstFrames : List Frame :=
  [.crypto ⟨20, [], rfl⟩ ⟨15, [], rfl⟩ ((helloAb.bytes.drop 20).take 15) rfl, .ping,
    .crypto ⟨0, [], rfl⟩ ⟨25, [], rfl⟩ (helloAb.bytes.take 25) rfl]

def lastFrames : List Frame :=
  [.crypto ⟨30, [], rfl⟩ ⟨25, [], rfl⟩ (helloAb.bytes.drop 30) rfl, .padding]

/-- Two packets with pieces that overlap. -/
def pieces : Transmission plainSuite helloAb where
  payload := plainPacket firstFrames ++ plainPacket lastFrames
  packets := [firstFrames, lastFrames]
  datagram := by
    have hfirst : Opens plainSuite (plainPacket firstFrames ++ plainPacket lastFrames)
        (firstFrames.flatMap Frame.bytes) (plainPacket lastFrames) := by
      refine ⟨⟨1, [], true, 64⟩, ⟨plainPacket firstFrames ++ plainPacket lastFrames, 10, 130⟩, ?_, rfl, ?_, ?_, ?_⟩
      all_goals decide +kernel
    have hlast : Opens plainSuite (plainPacket lastFrames) (lastFrames.flatMap Frame.bytes) [] := by
      refine ⟨⟨1, [], true, 46⟩, ⟨plainPacket lastFrames, 10, 56⟩, ?_, rfl, ?_, ?_, ?_⟩
      all_goals decide +kernel
    exact .cons hfirst (.cons hlast .nil)
  slices := by
    simp only [firstFrames, lastFrames, List.mem_cons, List.not_mem_nil, or_false, forall_eq,
      forall_eq_or_imp, Frame.IsSlice]
    decide +kernel

instance (f : Frame) (i : Nat) : Decidable (f.Has i) := by
  cases f <;> unfold Frame.Has <;> infer_instance

instance (fs : List Frame) : Decidable (Gapless fs) := by
  unfold Gapless
  infer_instance

def gapFrames : List Frame :=
  [.crypto ⟨0, [], rfl⟩ ⟨52, [], rfl⟩ (helloAb.bytes.take 52) rfl,
    .crypto ⟨53, [], rfl⟩ ⟨2, [], rfl⟩ [97, 98] rfl]

/-- One packet with all of it but the second byte of the length of the name. -/
def gap : Transmission plainSuite helloAb where
  payload := plainPacket gapFrames
  packets := [gapFrames]
  datagram := by
    refine .cons ⟨⟨1, [], true, 77⟩, ⟨plainPacket gapFrames, 10, 87⟩, ?_, rfl,
      ?_, ?_, ?_⟩ .nil
    all_goals decide +kernel
  slices := by
    simp only [gapFrames, List.mem_cons, List.not_mem_nil, or_false, forall_eq, forall_eq_or_imp,
      Frame.IsSlice]
    decide +kernel

end Plain

end Transmission

end V2RootCore.Quic
