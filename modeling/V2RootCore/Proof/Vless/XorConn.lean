import V2RootCore.Vless.XorConn

/-!
# The masked stream is transparent

Byte by byte, the loops of `Write` and `Read` are one automaton: whether a byte is masked depends on the
bytes of the plain stream before it only. So the cuts of the stream do not matter, and the reader, which
has the plain byte once it has unmasked it, makes the same transition as the writer.
-/

namespace V2RootCore.Vless

open Go

/-- The key stream one byte further on. -/
def Stream.next (s : Stream) : Stream := { s with used := s.used + 1 }

theorem Stream.xorKeyStream_nil (s : Stream) : s.xorKeyStream [] = ([], s) := rfl

theorem Stream.xorKeyStream_cons (s : Stream) (byte : UInt8) (b : Bytes) :
    s.xorKeyStream (byte :: b) =
      ((byte ^^^ s.key s.used) :: (s.next.xorKeyStream b).1, (s.next.xorKeyStream b).2) := by
  have hbytes : (b.zipIdx 1).map (fun p => p.1 ^^^ s.key (s.used + p.2)) =
      (s.next.xorKeyStream b).1 := by
    simp [xorKeyStream, next, List.zipIdx_succ, Function.comp_def, Nat.add_assoc, Nat.add_comm 1]
  simp only [xorKeyStream, List.zipIdx_cons, List.map_cons, Nat.zero_add, Nat.add_zero, hbytes,
    List.length_cons]
  simp [next, Nat.add_assoc, Nat.add_comm 1]

namespace Half

theorem nil_length_lt : ([] : Bytes).length < 5 := by decide

def stepByte (reading : Bool) (c : Half) (byte : UInt8) : Half × UInt8 :=
  if 0 < c.skip then ({ c with skip := c.skip - 1 }, byte)
  else
    let masked := byte ^^^ c.ctr.key c.ctr.used
    let header := c.header ++ [if reading then masked else byte]
    (if hlength : header.length < 5
      then { ctr := c.ctr.next, skip := 0, header, header_length := hlength }
      else { ctr := c.ctr.next, skip := (decodeHeader header).1, header_length := nil_length_lt }, masked)

def steps (reading : Bool) : Half → Bytes → Half × Bytes
  | c, [] => (c, [])
  | c, byte :: p =>
      let next := c.stepByte reading byte
      let rest := steps reading next.1 p
      (rest.1, next.2 :: rest.2)

section Turns

variable (reading : Bool) (fuel : Nat) (c : Half) (byte : UInt8) (p : Bytes)

theorem loop_skip (hskip : 0 < c.skip) :
    c.loop reading (fuel + 1) (byte :: p) =
      ((({ c with skip := c.skip - 1 } : Half).loop reading (fuel + 1) p).1,
        byte :: (({ c with skip := c.skip - 1 } : Half).loop reading (fuel + 1) p).2) := by
  obtain ⟨skip, hs⟩ : ∃ skip, c.skip = skip + 1 := ⟨c.skip - 1, by omega⟩
  simp only [loop, hs, List.length_cons, Nat.add_le_add_iff_right, Nat.add_sub_cancel,
    List.take_succ_cons, List.drop_succ_cons, Nat.add_sub_add_right]
  split_ifs <;> rfl

theorem loop_of_skip_eq_zero (hskip : c.skip = 0) :
    c.loop reading (fuel + 1) p =
      if hneed : p.length < 5 - c.header.length then
        ({ ctr := (c.ctr.xorKeyStream p).2
           skip := 0
           header := c.header ++ if reading then (c.ctr.xorKeyStream p).1 else p
           header_length := by
             have hlength := c.ctr.length_xorKeyStream p
             split_ifs <;> simp only [List.length_append] <;> omega },
          (c.ctr.xorKeyStream p).1)
      else
        let need := 5 - c.header.length
        let masked := c.ctr.xorKeyStream (p.take need)
        let header := c.header ++ if reading then masked.1 else p.take need
        let rest := ({ ctr := masked.2, skip := (decodeHeader header).1 } : Half).loop reading fuel
          (p.drop need)
        (rest.1, masked.1 ++ rest.2) := by
  cases p with
  | nil =>
      have hneed : ([] : Bytes).length < 5 - c.header.length := by
        have := c.header_length
        simp only [List.length_nil]
        omega
      rw [dif_pos hneed]
      refine Prod.ext (Half.ext ?_ ?_ ?_) ?_ <;> simp [loop, hskip, Stream.xorKeyStream]
  | cons byte p =>
      have hnot : ¬ (byte :: p).length ≤ c.skip := by simp [hskip]
      rw [loop, if_neg hnot]
      simp only [hskip, List.drop_zero, List.take_zero, List.nil_append]

theorem loop_last (hskip : c.skip = 0) (hlength : c.header.length = 4) :
    c.loop reading (fuel + 1) (byte :: p) =
      (((c.stepByte reading byte).1.loop reading fuel p).1,
        (c.stepByte reading byte).2 :: ((c.stepByte reading byte).1.loop reading fuel p).2) := by
  have hbytes : (if reading then [byte ^^^ c.ctr.key c.ctr.used] else [byte]) =
      [if reading then byte ^^^ c.ctr.key c.ctr.used else byte] := by
    split_ifs <;> rfl
  rw [loop_of_skip_eq_zero _ _ _ _ hskip, dif_neg (by simp [hlength])]
  simp [hlength, stepByte, hskip, hbytes, Stream.xorKeyStream_cons, Stream.xorKeyStream_nil]

theorem loop_header (hskip : c.skip = 0) (hlength : c.header.length < 4) :
    c.loop reading (fuel + 1) (byte :: p) =
      (((c.stepByte reading byte).1.loop reading (fuel + 1) p).1,
        (c.stepByte reading byte).2 :: ((c.stepByte reading byte).1.loop reading (fuel + 1) p).2) := by
  have hstep : c.stepByte reading byte =
      ({ ctr := c.ctr.next, skip := 0,
         header := c.header ++ [if reading then byte ^^^ c.ctr.key c.ctr.used else byte],
         header_length := by simp; omega }, byte ^^^ c.ctr.key c.ctr.used) := by
    simp [stepByte, hskip, show c.header.length + 1 < 5 by omega]
  obtain ⟨need, hneed⟩ : ∃ need, 5 - c.header.length = need + 1 := ⟨4 - c.header.length, by omega⟩
  have hneed' : 5 - (c.header.length + 1) = need := by omega
  have hbytes (masked rest : Bytes) :
      (if reading then (byte ^^^ c.ctr.key c.ctr.used) :: masked else byte :: rest) =
        (if reading then byte ^^^ c.ctr.key c.ctr.used else byte) ::
          if reading then masked else rest := by
    split_ifs <;> rfl
  rw [hstep, loop_of_skip_eq_zero _ _ _ _ hskip, loop_of_skip_eq_zero _ _ _ _ rfl]
  simp only [hneed, hneed', List.length_cons, List.length_append, List.length_nil,
    Nat.add_lt_add_iff_right, Stream.xorKeyStream_cons, List.take_succ_cons, List.drop_succ_cons, hbytes,
    List.append_assoc, List.cons_append, List.nil_append]
  by_cases hlt : p.length < need
  · simp only [hlt, dif_pos]
  · simp only [hlt, dif_neg, not_false_eq_true]

end Turns

theorem loop_eq_steps (reading : Bool) (p : Bytes) (fuel : Nat) (c : Half) (hfuel : p.length < fuel) :
    c.loop reading fuel p = c.steps reading p := by
  induction p generalizing fuel c with
  | nil =>
      cases fuel with
      | zero => omega
      | succ fuel => simp [loop, steps]
  | cons byte p ih =>
      cases fuel with
      | zero => omega
      | succ fuel =>
          rw [List.length_cons] at hfuel
          by_cases hskip : 0 < c.skip
          · rw [loop_skip _ _ _ _ _ hskip, ih _ _ (by omega)]
            simp [steps, stepByte, hskip]
          · have hzero : c.skip = 0 := by omega
            by_cases hlength : c.header.length < 4
            · rw [loop_header _ _ _ _ _ hzero hlength, ih _ _ (by omega), steps]
            · have hfour : c.header.length = 4 := by
                have := c.header_length
                omega
              rw [loop_last _ _ _ _ _ hzero hfour, ih _ _ (by omega), steps]

theorem steps_append (reading : Bool) (c : Half) (first second : Bytes) :
    c.steps reading (first ++ second) =
      (((c.steps reading first).1.steps reading second).1,
        (c.steps reading first).2 ++ ((c.steps reading first).1.steps reading second).2) := by
  induction first generalizing c with
  | nil => rfl
  | cons byte first ih => simp [steps, ih]

theorem length_steps (reading : Bool) (c : Half) (p : Bytes) :
    (c.steps reading p).2.length = p.length := by
  induction p generalizing c with
  | nil => rfl
  | cons byte p ih => simp [steps, ih]

theorem stepByte_stepByte (c : Half) (byte : UInt8) :
    c.stepByte true (c.stepByte false byte).2 = ((c.stepByte false byte).1, byte) := by
  by_cases hskip : 0 < c.skip
  · simp [stepByte, hskip]
  · have hxor (key : UInt8) : byte ^^^ key ^^^ key = byte := by
      rw [UInt8.xor_assoc, UInt8.xor_self, UInt8.xor_zero]
    simp [stepByte, hskip, hxor]

theorem steps_steps (c : Half) (p : Bytes) :
    c.steps true (c.steps false p).2 = ((c.steps false p).1, p) := by
  induction p generalizing c with
  | nil => rfl
  | cons byte p ih => simp [steps, stepByte_stepByte, ih]

end Half

namespace XorConn

theorem writeAll_eq (c : XorConn) (chunks : List Bytes) :
    c.writeAll chunks = ({ c with out := (c.out.steps false chunks.flatten).1 },
      (c.out.steps false chunks.flatten).2) := by
  induction chunks generalizing c with
  | nil => rfl
  | cons b chunks ih =>
      have hwrite : c.write b = ({ c with out := (c.out.steps false b).1 }, (c.out.steps false b).2) := by
        rw [write]
        split_ifs with hb
        · rw [hb]
          rfl
        · rw [Half.loop_eq_steps false b _ _ (Nat.lt_succ_self _)]
      simp [writeAll, hwrite, ih, Half.steps_append]

theorem readAll_eq (c : XorConn) (pieces : List Bytes) :
    c.readAll pieces = ({ c with peer := (c.peer.steps true pieces.flatten).1 },
      (c.peer.steps true pieces.flatten).2) := by
  induction pieces generalizing c with
  | nil => rfl
  | cons b pieces ih =>
      have hread : c.read b = ({ c with peer := (c.peer.steps true b).1 }, (c.peer.steps true b).2) := by
        rw [read, Half.loop_eq_steps true b _ _ (Nat.lt_succ_self _)]
      simp [readAll, hread, ih, Half.steps_append]

theorem steps_arrived (c : Half) (written arrived : Bytes) (h : arrived <+: (c.steps false written).2) :
    c.steps true arrived =
      ((c.steps false (written.take arrived.length)).1, written.take arrived.length) := by
  have hlength : arrived.length ≤ written.length := by
    rw [← c.length_steps false written]
    exact h.length_le
  have hsplit := c.steps_append false (written.take arrived.length) (written.drop arrived.length)
  rw [List.take_append_drop] at hsplit
  have harrived : arrived = (c.steps false (written.take arrived.length)).2 := by
    rw [hsplit] at h
    refine List.IsPrefix.eq_of_length ?_ (by simp [Half.length_steps, hlength])
    exact List.prefix_of_prefix_length_le h (List.prefix_append _ _) (by
      simp [Half.length_steps, hlength])
  conv_lhs => rw [harrived]
  rw [Half.steps_steps]

/-- **The masked connection is transparent.** The reader's half starts like the writer's. Whatever is
written, in whatever calls, as many bytes go to the transport. However it cuts what has arrived so far, the
bytes that are read are those written, position by position. And after any of the writes and any of the
reads that have come to the same position, both halves are in the same state. -/
theorem transparent (writer reader : XorConn) (hsame : reader.peer = writer.out) (chunks pieces : List Bytes)
    (harrived : pieces.flatten <+: (writer.writeAll chunks).2) :
    (writer.writeAll chunks).2.length = chunks.flatten.length ∧
    (reader.readAll pieces).2 = chunks.flatten.take pieces.flatten.length ∧
    ∀ first firstPieces, first <+: chunks → firstPieces <+: pieces →
      first.flatten.length = firstPieces.flatten.length →
      (reader.readAll firstPieces).1.peer = (writer.writeAll first).1.out := by
  rw [writeAll_eq] at harrived
  refine ⟨?_, ?_, ?_⟩
  · rw [writeAll_eq, Half.length_steps]
  · rw [readAll_eq, hsame, steps_arrived _ _ _ harrived]
  · intro first firstPieces hfirst hpieces hlength
    have harrived' : firstPieces.flatten <+: (writer.out.steps false chunks.flatten).2 :=
      (hpieces.flatten).trans harrived
    rw [readAll_eq, writeAll_eq, hsame]
    simp only [steps_arrived _ _ _ harrived']
    congr 2
    rw [← hlength]
    obtain ⟨rest, rfl⟩ := hfirst
    simp

/-- A connection with the key stream 1, 2, 3 and so on in each direction. -/
def counting : XorConn :=
  newXorConn { key := fun i => UInt8.ofNat (i + 1) } { key := fun i => UInt8.ofNat (i + 1) } 2 2

theorem transparent_counting :
    (counting.writeAll [[9], [8, 23, 3], [3, 0, 1, 50, 61]]).2.length = 9 ∧
      (counting.readAll [[9, 8, 22], [1, 0, 4, 4, 50], [59]]).2 = [9, 8, 23, 3, 3, 0, 1, 50, 61] ∧
      (counting.readAll [[9, 8, 22], [1, 0, 4, 4, 50], [59]]).1.peer =
        (counting.writeAll [[9], [8, 23, 3], [3, 0, 1, 50, 61]]).1.out := by
  obtain ⟨hlength, hbytes, hstates⟩ := transparent counting counting rfl [[9], [8, 23, 3], [3, 0, 1, 50, 61]]
    [[9, 8, 22], [1, 0, 4, 4, 50], [59]] (by decide +kernel)
  exact ⟨hlength, hbytes, hstates _ _ List.prefix_rfl List.prefix_rfl (by decide)⟩

end XorConn

end V2RootCore.Vless
