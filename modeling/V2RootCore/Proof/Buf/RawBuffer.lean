import V2RootCore.Proof.Go.Slices
import V2RootCore.Buf.RawBuffer

/-!
# Reading from a buffer and writing to it

As long as the indices of a buffer are in order, no read leaves its array. A buffer from the pool that
was only written to holds what was written, up to its size.
-/

namespace V2RootCore.Buf

open Go RawBuffer

/-- The indices are in order. -/
structure RawBuffer.Sound (b : RawBuffer) : Prop where
  start_nonneg : 0 ≤ b.start
  start_le : b.start ≤ b.stop
  stop_le : b.stop ≤ b.v.length
  stop_lt : b.stop < 2 ^ 31

structure After (b b' : RawBuffer) : Prop where
  sound : b'.Sound
  v : b'.v = b.v
  len : b'.len ≤ b.len

def Reads {α : Type} (read : Reading α) (P : α → Prop) : Prop :=
  ∀ b : RawBuffer, b.Sound → Safe (read b) fun result => P result.1 ∧ After b result.2

section Sound

variable {b : RawBuffer}

theorem RawBuffer.Sound.len_eq (h : b.Sound) : b.len = b.stop - b.start := by
  have := h.start_nonneg
  have := h.start_le
  have := h.stop_le
  have := h.stop_lt
  exact int32_eq (by omega) (by omega)

theorem RawBuffer.Sound.len_nonneg (h : b.Sound) : 0 ≤ b.len := by
  rw [h.len_eq]
  exact Int.sub_nonneg_of_le h.start_le

theorem RawBuffer.Sound.check_eq (h : b.Sound) : b.check = b := by
  have hstop : ¬b.stop < 0 := Int.not_lt.mpr (h.start_nonneg.trans h.start_le)
  rw [check, if_neg (Int.not_lt.mpr h.start_nonneg), if_neg hstop, if_neg (Int.not_lt.mpr h.start_le)]

theorem RawBuffer.Sound.after (h : b.Sound) : After b b := ⟨h, rfl, le_rfl⟩

theorem After.trans {b₁ b₂ b₃ : RawBuffer} (h : After b₁ b₂) (h' : After b₂ b₃) : After b₁ b₃ :=
  ⟨h'.sound, h'.v.trans h.v, h'.len.trans h.len⟩

theorem RawBuffer.Sound.advance (h : b.Sound) {n : Int} (hn : 0 ≤ n) (hle : n ≤ b.len) :
    let b' := { b with start := int32 (b.start + n) }
    After b b' ∧ b'.len = b.len - n := by
  have hlen := h.len_eq
  have := h.start_nonneg
  have := h.stop_le
  have := h.stop_lt
  have hstart : int32 (b.start + n) = b.start + n := int32_eq (by omega) (by omega)
  have hsound : { b with start := int32 (b.start + n) }.Sound := by
    refine ⟨?_, ?_, h.stop_le, h.stop_lt⟩
    · change 0 ≤ int32 (b.start + n)
      omega
    · change int32 (b.start + n) ≤ b.stop
      omega
  have hlen' : { b with start := int32 (b.start + n) }.len = b.len - n := by
    rw [hsound.len_eq]
    change b.stop - int32 (b.start + n) = b.len - n
    omega
  exact ⟨⟨hsound, rfl, by omega⟩, hlen'⟩

theorem sound_fromBytes {bytes : Bytes} (hbytes : bytes.length < 2 ^ 31) :
    (fromBytes bytes).Sound ∧ (fromBytes bytes).len = bytes.length := by
  have hlength : int32 (bytes.length : Int) = bytes.length := int32_eq (by omega) (by omega)
  have hstop : (fromBytes bytes).stop = bytes.length := by
    rw [fromBytes, hlength]
  have hsound : (fromBytes bytes).Sound :=
    ⟨le_rfl, by rw [hstop]; exact Int.natCast_nonneg _, hstop.le, by rw [hstop]; exact mod_cast hbytes⟩
  exact ⟨hsound, by rw [hsound.len_eq, hstop]; exact sub_zero _⟩

end Sound

section Bind

variable {α β : Type} {read : Reading α} {f : α → Reading β} {b : RawBuffer}

theorem bind_of_ok {result : α × RawBuffer} (h : read b = .ok result) :
    (read >>= f) b = f result.1 result.2 := by
  change (read b >>= fun result => f result.1 result.2) = _
  rw [h]
  rfl

theorem bind_of_error {err : Error} (h : read b = .error err) : (read >>= f) b = .error err := by
  change (read b >>= fun result => f result.1 result.2) = _
  rw [h]
  rfl

theorem exists_of_bind {result : β × RawBuffer} (h : (read >>= f) b = .ok result) :
    ∃ first, read b = .ok first ∧ f first.1 first.2 = .ok result :=
  (bind_eq_ok (x := read b) (f := fun first => f first.1 first.2)).mp h

end Bind

namespace Reads

variable {α β : Type} {read : Reading α} {P Q : α → Prop} {R : β → Prop}

theorem pure {a : α} (h : P a) : Reads (Pure.pure a) P := fun _ hb => .ok ⟨h, hb.after⟩

theorem throw {err : Error} (h : err ≠ .panicked) : Reads (MonadExcept.throw err : Reading α) P :=
  fun _ _ => .error h

theorem bind {f : α → Reading β} (h : Reads read P) (hf : ∀ a, P a → Reads (f a) R) :
    Reads (read >>= f) R := by
  intro b hb
  refine (h b hb).bind fun result hresult => ?_
  exact (hf result.1 hresult.1 result.2 hresult.2.sound).mono fun _ hafter =>
    ⟨hafter.1, hresult.2.trans hafter.2⟩

theorem ite {c : Prop} [Decidable c] {read' : Reading α} (h : c → Reads read P)
    (h' : ¬c → Reads read' P) : Reads (if c then read else read') P := by
  split_ifs with hc
  · exact h hc
  · exact h' hc

theorem orFail (h : Reads read P) {err : Error} (herr : err ≠ .panicked) :
    Reads (read.orFail err) P := by
  intro b hb
  have hsafe := h b hb
  rw [Reading.orFail]
  generalize read b = result at hsafe ⊢
  match result, hsafe with
  | .ok a, hsafe => exact hsafe
  | .error .panicked, hsafe => exact absurd rfl hsafe.1
  | .error .eof, _ => exact .error herr
  | .error .unexpectedEOF, _ => exact .error herr
  | .error .closedPipe, _ => exact .error herr
  | .error (.new text), _ => exact .error herr
  | .error (.base text inner), _ => exact .error herr

end Reads

section Primitive

theorem safe_readByte {b : RawBuffer} (hb : b.Sound) :
    Safe (readByte b) fun result => After b result.2 ∧ result.2.len = b.len - 1 := by
  rw [readByte]
  have hlen := hb.len_eq
  have := hb.stop_le
  have := hb.start_le
  refine .ite (fun _ => .error nofun) fun hne => ?_
  refine (safe_byteAt hb.start_nonneg (by omega)).bind fun nb _ => .ok ?_
  exact hb.advance (by omega) (by omega)

theorem reads_readByte : Reads readByte fun _ => True :=
  fun _ hb => (safe_readByte hb).mono fun _ h => ⟨trivial, h.1⟩

theorem reads_readBytes {length : Int} (hlength : 0 ≤ length) :
    Reads (readBytes length) fun _ => True := by
  intro b hb
  rw [readBytes]
  have hlen := hb.len_eq
  have := hb.start_nonneg
  have := hb.stop_le
  have := hb.stop_lt
  refine .ite (fun _ => .error nofun) fun hle => ?_
  have hle : length ≤ b.len := not_lt.mp hle
  have hstart : int32 (b.start + length) = b.start + length := int32_eq (by omega) (by omega)
  refine (safe_slice hb.start_nonneg (by omega) (by omega)).bind fun nb _ => .ok ⟨trivial, ?_⟩
  exact (hb.advance hlength hle).1

theorem reads_read (n : Nat) : Reads (read n) fun data => data.length ≤ n := by
  intro b hb
  rw [RawBuffer.read]
  have hlen := hb.len_eq
  have := hb.stop_le
  have := hb.stop_lt
  refine .ite (fun _ => .error nofun) fun hne => ?_
  refine (safe_slice hb.start_nonneg hb.start_le hb.stop_le).bind fun content hcontent => .ok ?_
  have hdata : (content.take n).length ≤ n := List.length_take_le n content
  have hle : (content.take n).length ≤ content.length := by
    rw [List.length_take]
    exact min_le_right _ _
  refine ⟨hdata, ?_⟩
  dsimp only
  split_ifs with hall
  · have hempty : { b with start := 0, stop := 0 }.Sound :=
      ⟨le_rfl, le_rfl, Int.natCast_nonneg _, by norm_num⟩
    refine ⟨hempty, rfl, ?_⟩
    rw [hempty.len_eq]
    exact hb.len_nonneg
  · exact (hb.advance (Int.natCast_nonneg _) (by omega)).1

theorem length_copyTo {b data : Bytes} {low : Nat} (h : low + data.length ≤ b.length) :
    (copyTo b low data).length = b.length := by
  rw [copyTo, List.length_append, List.length_append, List.length_take, List.length_drop]
  omega

theorem extend_eq {b : RawBuffer} (hb : b.Sound) (hlt : b.v.length < 2 ^ 31) {n : Nat}
    (hroom : b.stop + n ≤ b.v.length) :
    b.extend n = .ok (List.replicate n 0,
      { b with v := copyTo b.v b.stop.toNat (List.replicate n 0), stop := b.stop + n }) := by
  have := hb.start_nonneg
  have := hb.start_le
  have := hb.stop_lt
  have hstop : int32 (b.stop + n) = b.stop + n := int32_eq (by omega) (by omega)
  have hcap : int32 (b.v.length : Int) = b.v.length := int32_eq (by omega) (by omega)
  have hlength : ((b.v.take (b.stop + n).toNat).drop b.stop.toNat).length = n := by
    rw [List.length_drop, List.length_take]
    omega
  rw [extend, hstop, hcap, if_neg (by omega), slice, if_pos (by omega)]
  simp only [bind, Except.bind, hlength]

theorem safe_extend {b : RawBuffer} (hb : b.Sound) (hlt : b.v.length < 2 ^ 31) {n : Nat}
    (hroom : b.stop + n ≤ b.v.length) :
    Safe (b.extend n) fun result => result.1.length = n ∧ result.2.Sound ∧
      result.2.stop = b.stop + n ∧ result.2.v.length = b.v.length := by
  rw [extend_eq hb hlt hroom]
  have := hb.start_nonneg
  have := hb.start_le
  have hlength : (copyTo b.v b.stop.toNat (List.replicate n 0)).length = b.v.length := by
    refine length_copyTo ?_
    rw [List.length_replicate]
    omega
  refine .ok ⟨List.length_replicate, ⟨hb.start_nonneg, ?_, ?_, ?_⟩, rfl, hlength⟩
  · dsimp only
    omega
  · dsimp only
    omega
  · dsimp only
    have := hb.stop_lt
    omega

theorem exists_extend_new {n : Nat} (hn : n ≤ 8192) :
    ∃ buffer, RawBuffer.new.extend n = .ok (List.replicate n 0, buffer) ∧ buffer.Sound ∧
      buffer.stop = n ∧ buffer.v.length = 8192 := by
  have hlength : RawBuffer.new.v.length = 8192 := List.length_replicate
  have hstop : RawBuffer.new.stop = 0 := rfl
  have hsound : RawBuffer.new.Sound := ⟨le_rfl, le_rfl, Int.natCast_nonneg _, by omega⟩
  have hroom : RawBuffer.new.stop + n ≤ RawBuffer.new.v.length := by omega
  have hextend := extend_eq hsound (by omega) hroom
  obtain ⟨-, hbuffer, hend, hsame⟩ := (safe_extend hsound (by omega) hroom).2 _ hextend
  exact ⟨_, hextend, hbuffer, by rw [hend, hstop, zero_add], hsame.trans hlength⟩

theorem length_le_of_read {n : Nat} {b : RawBuffer} {result : Bytes × RawBuffer}
    (h : read n b = .ok result) : result.1.length ≤ n := by
  rw [RawBuffer.read] at h
  split_ifs at h
  obtain ⟨content, -, hresult⟩ := bind_eq_ok.mp h
  obtain rfl := Except.ok.inj hresult
  exact List.length_take_le n content

theorem eq_ok_of_orFail {α : Type} {read : Reading α} {err : Error} {b : RawBuffer}
    {result : α × RawBuffer} (h : read.orFail err b = .ok result) : read b = .ok result := by
  rw [Reading.orFail] at h
  split at h
  · rename_i hread
    rw [hread, h]
  · cases h
  · cases h

end Primitive

/-- A buffer from the pool with this content. -/
structure RawBuffer.Holds (b : RawBuffer) (content : Bytes) : Prop where
  start : b.start = 0
  stop : b.stop = content.length
  length : b.v.length = size
  v : b.v.take content.length = content

section Holds

variable {b : RawBuffer} {content : Bytes}

theorem holds_new : RawBuffer.new.Holds [] := ⟨rfl, rfl, List.length_replicate, rfl⟩

namespace RawBuffer.Holds

variable (h : b.Holds content)

include h

theorem length_le : content.length ≤ size := by
  have hlength := congrArg List.length h.v
  rw [List.length_take, h.length] at hlength
  omega

theorem bytes : b.bytes = .ok content := by
  have hle := h.length_le
  rw [RawBuffer.bytes, Go.slice, h.start, h.stop, h.length, if_pos ⟨le_rfl, by omega, by omega⟩]
  exact congrArg Except.ok h.v

theorem copyTo (data : Bytes) (hroom : content.length + data.length ≤ size) :
    { b with v := Go.copyTo b.v content.length data,
             stop := ((content.length + data.length : Nat) : Int) }.Holds (content ++ data) := by
  have hle := h.length_le
  refine ⟨h.start, ?_, ?_, ?_⟩
  · rw [List.length_append]
  · exact (length_copyTo (h.length ▸ hroom)).trans h.length
  · dsimp only
    rw [Go.copyTo, h.v, List.take_left]

theorem sound : b.Sound := by
  have hle := h.length_le
  have hsize : size = 8192 := rfl
  refine ⟨h.start.ge, ?_, ?_, ?_⟩
  · rw [h.start, h.stop]
    exact Int.natCast_nonneg _
  · rw [h.stop, h.length]
    omega
  · rw [h.stop]
    omega

theorem extend {n : Nat} (hroom : content.length + n ≤ size) :
    ∃ b', b.extend n = .ok (List.replicate n 0, b') ∧ b'.Holds (content ++ List.replicate n 0) := by
  have hcopy := h.copyTo (List.replicate n 0) (by rw [List.length_replicate]; exact hroom)
  refine ⟨_, extend_eq h.sound (by rw [h.length]; decide) ?_, ?_⟩
  · rw [h.stop, h.length]
    omega
  · rw [h.stop, Int.toNat_natCast]
    rw [List.length_replicate, Nat.cast_add] at hcopy
    exact hcopy

theorem write (data : Bytes) :
    ∃ b', b.write data =
        .ok (if content.length + data.length ≤ size then none else some errBufferFull, b') ∧
      b'.Holds (content ++ data.take (size - content.length)) := by
  have hle := h.length_le
  have hsize : size = 8192 := rfl
  have hroom : sliceFrom b.v b.stop = .ok (b.v.drop content.length) := by
    rw [sliceFrom, Go.slice, h.stop, h.length, if_pos ⟨by omega, by omega, le_rfl⟩, Int.toNat_natCast,
      Int.toNat_natCast, ← h.length, List.take_length]
  have hlength : (b.v.drop content.length).length = size - content.length := by
    rw [List.length_drop, h.length]
  generalize hcopied : data.take (size - content.length) = copied
  have hmin : copied.length = min (size - content.length) data.length :=
    hcopied ▸ List.length_take
  have hstop : int32 (b.stop + copied.length) = ((content.length + copied.length : Nat) : Int) := by
    rw [h.stop, int32_eq (by omega) (by omega), Nat.cast_add]
  refine ⟨_, ?_, h.copyTo copied (by omega)⟩
  rw [RawBuffer.write, hroom, ok_bind, hlength, hcopied]
  dsimp only
  rw [hstop, h.stop, Int.toNat_natCast]
  by_cases hfits : content.length + data.length ≤ size
  · rw [if_pos hfits, if_neg (by omega)]
  · rw [if_neg hfits, if_pos (by omega)]

theorem write_of_fits {data : Bytes} (hfits : content.length + data.length ≤ size) :
    ∃ b', b.write data = .ok (none, b') ∧ b'.Holds (content ++ data) := by
  obtain ⟨b', hwrite, hholds⟩ := h.write data
  rw [if_pos hfits] at hwrite
  rw [List.take_of_length_le (by omega)] at hholds
  exact ⟨b', hwrite, hholds⟩

theorem mustWrite (data : Bytes) (hfits : content.length + data.length ≤ size) :
    ∃ b', b.mustWrite data = .ok b' ∧ b'.Holds (content ++ data) := by
  obtain ⟨b', hwrite, hholds⟩ := h.write_of_fits hfits
  exact ⟨b', by rw [RawBuffer.mustWrite, hwrite, ok_bind], hholds⟩

theorem writeAll (data : Bytes) (hfits : content.length + data.length ≤ size) :
    ∃ b', b.writeAll data = .ok b' ∧ b'.Holds (content ++ data) := by
  obtain ⟨b', hwrite, hholds⟩ := h.write_of_fits hfits
  exact ⟨b', by rw [RawBuffer.writeAll, hwrite, ok_bind], hholds⟩

theorem mustWrite_of_full {data : Bytes} (hfull : ¬content.length + data.length ≤ size) :
    b.mustWrite data = .error .panicked := by
  obtain ⟨b', hwrite, -⟩ := h.write data
  rw [RawBuffer.mustWrite, hwrite, if_neg hfull, ok_bind]

end RawBuffer.Holds

end Holds

end V2RootCore.Buf
