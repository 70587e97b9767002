import V2RootCore.Kcp.Packet
import V2RootCore.Proof.Go.Slices
import V2RootCore.Proof.Go.Io

/-!
# Packets decode to the segments sent

Both loops of `xor.go` are made of the same steps, each its own inverse, in opposite order; and a step at a place
does not look behind it, so that the padding can be cut off and put on again. Only where the writer keeps the
array and not the slice that `Seal` returns does it matter whether the padding had room.
-/

namespace V2RootCore.Kcp

open Go KCPPacketReader

/-- A computation returns, and what it returns has a property. -/
def Returns {α : Type} (x : Except Error α) (P : α → Prop) : Prop := ∃ a, x = .ok a ∧ P a

theorem Returns.bind {α β : Type} {x : Except Error α} {f : α → Except Error β} {P : α → Prop} {Q : β → Prop}
    (h : Returns x P) (hf : ∀ a, P a → Returns (f a) Q) : Returns (x >>= f) Q := by
  obtain ⟨a, rfl, ha⟩ := h
  exact hf a ha

section Numbers

theorem uint32_putUint32_append (n : UInt32) (rest : Bytes) : uint32 (putUint32 n ++ rest) = n := by
  apply UInt32.toNat.inj
  have hn := n.toNat_lt
  simp only [putUint32, List.cons_append, uint32, UInt8.toNat_ofNat', UInt32.toNat_ofNat']
  omega

theorem uint16_putUint16_append (n : UInt16) (rest : Bytes) : uint16 (putUint16 n ++ rest) = n :=
  uint16_putUint16 n

@[simp]
theorem takeUint32_putUint32 (n : UInt32) (rest : Bytes) :
    takeUint32 (putUint32 n ++ rest) = .ok (n, rest) := by
  rw [takeUint32, if_neg (by simp [putUint32]), uint32_putUint32_append]
  rfl

@[simp]
theorem takeUint16_putUint16 (n : UInt16) (rest : Bytes) :
    takeUint16 (putUint16 n ++ rest) = .ok (n, rest) := by
  rw [takeUint16, if_neg (by simp [putUint16]), uint16_putUint16_append]
  rfl

variable {buf : Bytes}

theorem returns_takeUint32 (h : 4 ≤ buf.length) :
    Returns (takeUint32 buf) fun r => r.2.length + 4 = buf.length := by
  refine ⟨(uint32 buf, buf.drop 4), if_neg (by omega), ?_⟩
  dsimp only
  rw [List.length_drop]
  omega

theorem returns_takeUint16 (h : 2 ≤ buf.length) :
    Returns (takeUint16 buf) fun r => r.2.length + 2 = buf.length := by
  refine ⟨(uint16 buf, buf.drop 2), if_neg (by omega), ?_⟩
  dsimp only
  rw [List.length_drop]
  omega

theorem returns_takeByte (h : 1 ≤ buf.length) :
    Returns (takeByte buf) fun r => r.2.length + 1 = buf.length := by
  obtain ⟨byte, rest, rfl⟩ := List.exists_cons_of_length_pos h
  exact ⟨(byte, rest), rfl, rfl⟩

theorem returns_takeNumbers {count : Nat} (h : count * 4 ≤ buf.length) :
    Returns (takeNumbers count buf) fun r => r.2.length ≤ buf.length := by
  induction count generalizing buf with
  | zero => exact ⟨_, rfl, le_rfl⟩
  | succ count ih =>
      refine (returns_takeUint32 (by omega)).bind fun r hr => ?_
      refine (ih (by omega)).bind fun r' hr' => ⟨_, rfl, ?_⟩
      exact hr'.trans (by omega)

end Numbers

namespace Segment

def command : Segment Bytes → Command
  | .data _ => CommandData
  | .ack _ => CommandACK
  | .cmdOnly s => s.cmd

/-- The fields of a segment that are on the wire. -/
def wire : Segment Bytes → Segment Bytes
  | .data s => .data { s with timeout := 0, transmit := 0 }
  | .ack s => .ack s
  | .cmdOnly s => .cmdOnly s

/-- The segments a packet is made of. -/
def Sendable : Segment Bytes → Prop
  | .data s => 1 ≤ s.payload.length ∧ s.payload.length ≤ 8192
  | .ack s => s.numberList.length ≤ ackNumberLimit
  | .cmdOnly s => s.cmd ≠ CommandACK ∧ s.cmd ≠ CommandData

end Segment

section Reading

/-- What a parser returns is shorter than what it was given, and has the option of the segment's head. -/
def Shortens {α : Type} (option : α → SegmentOption) (opt : SegmentOption) (buf : Bytes) :
    Option (α × Bytes) → Prop
  | none => True
  | some (seg, rest) => option seg = opt ∧ rest.length ≤ buf.length

variable {conv : UInt16} {cmd : Command} {opt : SegmentOption} {buf : Bytes}

theorem returns_parse_data :
    Returns (DataSegment.parse conv opt buf) (Shortens DataSegment.option opt buf) := by
  unfold DataSegment.parse
  split
  · exact ⟨none, rfl, trivial⟩
  · next hlong =>
      refine (returns_takeUint32 (by omega)).bind fun r₁ h₁ => ?_
      refine (returns_takeUint32 (by omega)).bind fun r₂ h₂ => ?_
      refine (returns_takeUint32 (by omega)).bind fun r₃ h₃ => ?_
      refine (returns_takeUint16 (by omega)).bind fun r₄ h₄ => ?_
      dsimp only
      split
      · exact ⟨none, rfl, trivial⟩
      · refine ⟨_, rfl, rfl, ?_⟩
        rw [List.length_drop]
        omega

theorem returns_parse_ack :
    Returns (AckSegment.parse conv opt buf) (Shortens AckSegment.option opt buf) := by
  unfold AckSegment.parse
  split
  · exact ⟨none, rfl, trivial⟩
  · next hlong =>
      refine (returns_takeUint32 (by omega)).bind fun r₁ h₁ => ?_
      refine (returns_takeUint32 (by omega)).bind fun r₂ h₂ => ?_
      refine (returns_takeUint32 (by omega)).bind fun r₃ h₃ => ?_
      refine (returns_takeByte (by omega)).bind fun r₄ h₄ => ?_
      dsimp only
      split
      · exact ⟨none, rfl, trivial⟩
      · next hnumbers =>
          refine (returns_takeNumbers (not_lt.mp hnumbers)).bind fun r₅ h₅ => ?_
          exact ⟨_, rfl, rfl, h₅.trans (by omega)⟩

theorem returns_parse_cmdOnly :
    Returns (CmdOnlySegment.parse conv cmd opt buf)
      (Shortens (fun seg => seg.option) opt buf) ∧
    ∀ seg rest, CmdOnlySegment.parse conv cmd opt buf = .ok (some (seg, rest)) → seg.cmd = cmd := by
  unfold CmdOnlySegment.parse
  split
  · exact ⟨⟨none, rfl, trivial⟩, nofun⟩
  · next hlong =>
      obtain ⟨r₁, h₁, hlength₁⟩ := @returns_takeUint32 buf (by omega)
      obtain ⟨r₂, h₂, hlength₂⟩ := @returns_takeUint32 r₁.2 (by omega)
      obtain ⟨r₃, h₃, hlength₃⟩ := @returns_takeUint32 r₂.2 (by omega)
      simp only [h₁, ok_bind, h₂, h₃]
      refine ⟨⟨_, rfl, rfl, by omega⟩, fun seg rest hparse => ?_⟩
      obtain ⟨rfl, -⟩ := Prod.mk.inj (Option.some.inj (Except.ok.inj hparse))
      rfl

/-- What reading one segment tells of the bytes. -/
def ReadsHead (b : Bytes) : Option (Segment Bytes × Bytes) → Prop
  | none => True
  | some (seg, rest) =>
      rest.length < b.length ∧ b[2]? = some seg.command ∧ b[3]? = some seg.option

theorem readSegment_cons (c₀ c₁ : UInt8) (tail : Bytes) :
    readSegment (c₀ :: c₁ :: cmd :: opt :: tail) =
      if cmd = CommandData then parsedAs .data (DataSegment.parse (uint16 [c₀, c₁]) opt tail)
      else if cmd = CommandACK then parsedAs .ack (AckSegment.parse (uint16 [c₀, c₁]) opt tail)
      else parsedAs .cmdOnly (CmdOnlySegment.parse (uint16 [c₀, c₁]) cmd opt tail) := by
  rw [readSegment, if_neg (by simp)]
  rfl

theorem readsHead_parsedAs {α : Type} {kind : α → Segment Bytes} {option : α → SegmentOption}
    {parsed : Except Error (Option (α × Bytes))} {c₀ c₁ : UInt8}
    (h : Returns parsed (Shortens option opt buf)) (hoption : ∀ seg, (kind seg).option = option seg)
    (hcommand : ∀ seg rest, parsed = .ok (some (seg, rest)) → (kind seg).command = cmd) :
    Returns (parsedAs kind parsed) (ReadsHead (c₀ :: c₁ :: cmd :: opt :: buf)) := by
  obtain ⟨r, rfl, hr⟩ := h
  cases r with
  | none => exact ⟨none, rfl, trivial⟩
  | some r =>
      refine ⟨some (kind r.1, r.2), rfl, ?_, ?_, ?_⟩
      · simp only [List.length_cons]
        exact lt_of_le_of_lt hr.2 (by omega)
      · simp [hcommand r.1 r.2 rfl]
      · simp [hoption, hr.1]

theorem returns_readSegment (b : Bytes) : Returns (readSegment b) (ReadsHead b) := by
  match b with
  | [] => exact ⟨none, rfl, trivial⟩
  | [_] => exact ⟨none, rfl, trivial⟩
  | [_, _] => exact ⟨none, rfl, trivial⟩
  | [_, _, _] => exact ⟨none, rfl, trivial⟩
  | c₀ :: c₁ :: cmd :: opt :: tail =>
      rw [readSegment_cons]
      split
      · next hdata => exact readsHead_parsedAs returns_parse_data (fun _ => rfl) fun _ _ _ => hdata.symm
      · split
        · next hack => exact readsHead_parsedAs returns_parse_ack (fun _ => rfl) fun _ _ _ => hack.symm
        · exact readsHead_parsedAs returns_parse_cmdOnly.1 (fun _ => rfl) returns_parse_cmdOnly.2

/-- The segments were read one after the other, and each took at least a byte. -/
inductive Consumes : Bytes → List (Segment Bytes) → Prop
  | stop (b : Bytes) : Consumes b []
  | next {b rest : Bytes} {seg : Segment Bytes} {segs : List (Segment Bytes)}
      (hread : readSegment b = .ok (some (seg, rest))) (hless : rest.length < b.length)
      (hrest : Consumes rest segs) : Consumes b (seg :: segs)

theorem readSegments_succ (fuel : Nat) {b : Bytes} (hb : b ≠ []) :
    readSegments (fuel + 1) b = (readSegment b >>= fun r =>
      match r with
      | none => .ok []
      | some (seg, rest) => readSegments fuel rest >>= fun segs => .ok (seg :: segs)) := by
  exact if_neg hb

theorem returns_readSegments {fuel : Nat} {b : Bytes} (hfuel : b.length ≤ fuel) :
    Returns (readSegments fuel b) (Consumes b) := by
  induction fuel generalizing b with
  | zero =>
      obtain rfl := List.eq_nil_of_length_eq_zero (Nat.le_zero.mp hfuel)
      exact ⟨[], rfl, .stop []⟩
  | succ fuel ih =>
      by_cases hb : b = []
      · rw [hb]
        exact ⟨[], rfl, .stop []⟩
      · rw [readSegments_succ fuel hb]
        obtain ⟨r, hread, hr⟩ := returns_readSegment b
        rw [hread, ok_bind]
        match r, hr with
        | none, _ => exact ⟨[], rfl, .stop b⟩
        | some (seg, rest), hr =>
            refine (ih (b := rest) (by have := hr.1; omega)).bind fun segs hsegs => ?_
            exact ⟨_, rfl, .next hread hr.1 hsegs⟩

end Reading

section RoundTrip

theorem readSegment_append (conv : UInt16) (cmd opt : UInt8) (tail : Bytes) :
    readSegment (putUint16 conv ++ cmd :: opt :: tail) =
      if cmd = CommandData then parsedAs .data (DataSegment.parse conv opt tail)
      else if cmd = CommandACK then parsedAs .ack (AckSegment.parse conv opt tail)
      else parsedAs .cmdOnly (CmdOnlySegment.parse conv cmd opt tail) := by
  have hconv := uint16_putUint16 conv
  rw [putUint16] at hconv ⊢
  rw [List.cons_append, List.cons_append, List.nil_append, readSegment_cons, hconv]

theorem takeNumbers_flatMap (numbers : List UInt32) (rest : Bytes) :
    takeNumbers numbers.length (numbers.flatMap putUint32 ++ rest) = .ok (numbers, rest) := by
  induction numbers with
  | nil => rfl
  | cons number numbers ih =>
      simp only [List.flatMap_cons, List.append_assoc, List.length_cons, takeNumbers, takeUint32_putUint32,
        ok_bind, ih]

theorem readSegment_data {s : DataSegment Bytes} (h : (Segment.data s).Sendable) (rest : Bytes) :
    readSegment (s.serialize ++ rest) = .ok (some ((Segment.data s).wire, rest)) := by
  obtain ⟨hpos, hle⟩ := h
  have hlength : (UInt16.ofNat s.payload.length).toNat = s.payload.length :=
    toNat_ofNat_uint16 (by omega)
  have hparse : DataSegment.parse s.conv s.option (putUint32 s.timestamp ++ (putUint32 s.number ++
      (putUint32 s.sendingNext ++ (putUint16 (UInt16.ofNat s.payload.length) ++ (s.payload ++ rest))))) =
      .ok (some ({ s with timeout := 0, transmit := 0 }, rest)) := by
    rw [DataSegment.parse, if_neg (by simp [putUint32, putUint16]; omega)]
    simp only [takeUint32_putUint32, takeUint16_putUint16, ok_bind, hlength]
    rw [if_neg (by simp), List.take_left, List.take_of_length_le hle, List.drop_left]
  simp only [DataSegment.serialize, List.append_assoc, List.cons_append, List.nil_append]
  rw [readSegment_append, if_pos rfl, hparse]
  rfl

theorem readSegment_ack {s : AckSegment} (h : (Segment.ack s).Sendable) (rest : Bytes) :
    readSegment (s.serialize ++ rest) = .ok (some ((Segment.ack s).wire, rest)) := by
  have hle : s.numberList.length ≤ 128 := h
  have hcount : (UInt8.ofNat s.numberList.length).toNat = s.numberList.length := by
    rw [UInt8.toNat_ofNat', Nat.mod_eq_of_lt (by omega)]
  have hnumbers : (s.numberList.flatMap putUint32).length = s.numberList.length * 4 := by
    rw [List.length_flatMap]
    simp [putUint32]
  have hparse : AckSegment.parse s.conv s.option (putUint32 s.receivingWindow ++
      (putUint32 s.receivingNext ++ (putUint32 s.timestamp ++ (UInt8.ofNat s.numberList.length ::
      (s.numberList.flatMap putUint32 ++ rest))))) =
      .ok (some (s, rest)) := by
    rw [AckSegment.parse, if_neg (by simp [putUint32])]
    simp only [takeUint32_putUint32, ok_bind, takeByte, hcount]
    rw [if_neg (by rw [List.length_append, hnumbers]; omega), takeNumbers_flatMap]
    rfl
  simp only [AckSegment.serialize, List.append_assoc, List.cons_append, List.nil_append]
  rw [readSegment_append, if_neg (by decide), if_pos rfl, hparse]
  rfl

theorem readSegment_cmdOnly {s : CmdOnlySegment} (h : (Segment.cmdOnly s).Sendable) (rest : Bytes) :
    readSegment (s.serialize ++ rest) = .ok (some ((Segment.cmdOnly s).wire, rest)) := by
  have hparse : CmdOnlySegment.parse s.conv s.cmd s.option (putUint32 s.sendingNext ++
      (putUint32 s.receivingNext ++ (putUint32 s.peerRTO ++ rest))) = .ok (some (s, rest)) := by
    rw [CmdOnlySegment.parse, if_neg (by simp [putUint32])]
    simp only [takeUint32_putUint32, ok_bind]
  simp only [CmdOnlySegment.serialize, List.append_assoc, List.cons_append, List.nil_append]
  rw [readSegment_append, if_neg h.2, if_neg h.1, hparse]
  rfl

theorem readSegment_serialize {seg : Segment Bytes} (h : seg.Sendable) (rest : Bytes) :
    readSegment (seg.serialize ++ rest) = .ok (some (seg.wire, rest)) := by
  cases seg with
  | data s => exact readSegment_data h rest
  | ack s => exact readSegment_ack h rest
  | cmdOnly s => exact readSegment_cmdOnly h rest

/-- `ByteSize`. -/
def Segment.byteSize : Segment Bytes → Nat
  | .data s => 18 + s.payload.length
  | .ack s => 17 + 4 * s.numberList.length
  | .cmdOnly _ => 16

theorem length_serialize (seg : Segment Bytes) : seg.serialize.length = seg.byteSize := by
  cases seg with
  | data s =>
      simp only [Segment.serialize, DataSegment.serialize, Segment.byteSize, putUint16, putUint32,
        List.length_append, List.length_cons, List.length_nil]
  | ack s =>
      simp only [Segment.serialize, AckSegment.serialize, Segment.byteSize, putUint16, putUint32,
        List.length_append, List.length_cons, List.length_nil, List.length_flatMap, List.map_const',
        List.sum_replicate, smul_eq_mul]
      omega
  | cmdOnly s => rfl

theorem four_le_length_serialize (seg : Segment Bytes) : 4 ≤ seg.serialize.length := by
  rw [length_serialize]
  cases seg with
  | data s => exact le_add_right (by decide)
  | ack s => exact le_add_right (by decide)
  | cmdOnly s => exact Nat.le_add_left 4 12

theorem readSegments_serialize {segs : List (Segment Bytes)} (h : ∀ seg ∈ segs, seg.Sendable) {fuel : Nat}
    (hfuel : (segs.flatMap Segment.serialize).length ≤ fuel) :
    readSegments fuel (segs.flatMap Segment.serialize) = .ok (segs.map Segment.wire) := by
  induction segs generalizing fuel with
  | nil => cases fuel <;> rfl
  | cons seg segs ih =>
      obtain ⟨hseg, hsegs⟩ := List.forall_mem_cons.mp h
      have hlong := four_le_length_serialize seg
      rw [List.flatMap_cons, List.length_append] at hfuel
      obtain ⟨fuel, rfl⟩ : ∃ fuel', fuel = fuel' + 1 := ⟨fuel - 1, by omega⟩
      have hne : seg.serialize ++ segs.flatMap Segment.serialize ≠ [] := by
        rw [← List.length_pos_iff, List.length_append]
        omega
      rw [List.flatMap_cons, readSegments_succ fuel hne, readSegment_serialize hseg, ok_bind]
      dsimp only
      rw [ih hsegs (by omega)]
      rfl

end RoundTrip

namespace SimpleAuthenticator

section Xor

@[simp]
theorem length_xorAt (x : Bytes) (i : Nat) : (xorAt x i).length = x.length := List.length_set

@[simp]
theorem length_foldl_xorAt (x : Bytes) (places : List Nat) : (places.foldl xorAt x).length = x.length := by
  induction places generalizing x with
  | nil => rfl
  | cons i places ih => rw [List.foldl_cons, ih, length_xorAt]

theorem getD_xorAt (x : Bytes) (i j : Nat) :
    (xorAt x i).getD j 0 = if i = j ∧ j < x.length then x.getD i 0 ^^^ x.getD (i - 4) 0 else x.getD j 0 := by
  unfold xorAt
  simp only [List.getD_eq_getElem?_getD, List.getElem?_set]
  by_cases hij : i = j
  · subst hij
    by_cases hi : i < x.length
    · simp [hi]
    · simp [hi]
  · simp [hij]

theorem ext_getD {x y : Bytes} (hlength : x.length = y.length) (hbytes : ∀ i, x.getD i 0 = y.getD i 0) :
    x = y := by
  refine List.ext_getElem hlength fun i hx hy => ?_
  have hi := hbytes i
  rwa [List.getD_eq_getElem?_getD, List.getD_eq_getElem?_getD, List.getElem?_eq_getElem hx,
    List.getElem?_eq_getElem hy] at hi

theorem getD_append_of_lt {x : Bytes} (y : Bytes) {i : Nat} (hi : i < x.length) :
    (x ++ y).getD i 0 = x.getD i 0 := by
  rw [List.getD_eq_getElem?_getD, List.getElem?_append_left hi, List.getD_eq_getElem?_getD]

/-- A step is its own inverse, since it leaves the byte it adds as it is. -/
theorem xorAt_xorAt {i : Nat} (hi : 4 ≤ i) (x : Bytes) : xorAt (xorAt x i) i = x := by
  refine ext_getD (by simp) fun j => ?_
  have hbefore : (xorAt x i).getD (i - 4) 0 = x.getD (i - 4) 0 := by
    rw [getD_xorAt, if_neg (by omega)]
  rw [getD_xorAt, length_xorAt, hbefore, getD_xorAt x i i, getD_xorAt x i j]
  by_cases hj : i = j ∧ j < x.length
  · obtain ⟨rfl, hlt⟩ := hj
    rw [if_pos ⟨rfl, hlt⟩, if_pos ⟨rfl, hlt⟩, UInt8.xor_assoc, UInt8.xor_self, UInt8.xor_zero]
  · rw [if_neg hj, if_neg hj]

theorem take_xorAt (n i : Nat) (x : Bytes) : (xorAt x i).take n = xorAt (x.take n) i := by
  unfold xorAt
  rw [List.take_set]
  by_cases hi : i < n
  · have hget : ∀ j < n, (x.take n).getD j 0 = x.getD j 0 := fun j hj => by
      rw [List.getD_eq_getElem?_getD, List.getElem?_take_of_lt hj, List.getD_eq_getElem?_getD]
    rw [hget i hi, hget (i - 4) (by omega)]
  · have hout : (x.take n).length ≤ i := by
      rw [List.length_take]
      omega
    rw [List.set_eq_of_length_le hout, List.set_eq_of_length_le hout]

theorem take_foldl_xorAt (n : Nat) (places : List Nat) (x : Bytes) :
    (places.foldl xorAt x).take n = places.foldl xorAt (x.take n) := by
  induction places generalizing x with
  | nil => rfl
  | cons i places ih => rw [List.foldl_cons, List.foldl_cons, ih, take_xorAt]

theorem foldl_reverse_foldl {places : List Nat} (hplaces : ∀ i ∈ places, 4 ≤ i) (x : Bytes) :
    places.reverse.foldl xorAt (places.foldl xorAt x) = x := by
  induction places generalizing x with
  | nil => rfl
  | cons i places ih =>
      obtain ⟨hi, hrest⟩ := List.forall_mem_cons.mp hplaces
      rw [List.foldl_cons, List.reverse_cons, List.foldl_append, ih hrest]
      exact xorAt_xorAt hi x

/-- The loops undo each other also when what was appended is cut off and appended anew between them. -/
theorem xorbkd_xorfwd (x : Bytes) (zeros : Nat) :
    (xorbkd ((xorfwd (x ++ List.replicate zeros 0)).take x.length ++ List.replicate zeros 0)).take x.length =
      x := by
  have hlength : ((xorfwd (x ++ List.replicate zeros 0)).take x.length).length = x.length := by
    simp [xorfwd]
  have hplaces : ∀ i ∈ List.range' 4 (x.length + zeros - 4), 4 ≤ i := fun i hi =>
    (List.mem_range'_1.mp hi).1
  rw [xorbkd, take_foldl_xorAt, List.length_append, hlength, List.length_replicate,
    List.take_left' hlength, xorfwd, take_foldl_xorAt, List.take_left, List.length_append,
    List.length_replicate, foldl_reverse_foldl hplaces]

theorem getD_foldl_reverse (count : Nat) (x : Bytes) {i : Nat} (hi : i < x.length) :
    ((List.range' 4 count).reverse.foldl xorAt x).getD i 0 =
      if 4 ≤ i ∧ i < 4 + count then x.getD i 0 ^^^ x.getD (i - 4) 0 else x.getD i 0 := by
  induction count generalizing x with
  | zero =>
      rw [if_neg (by omega)]
      rfl
  | succ count ih =>
      rw [List.range'_concat, List.reverse_append, List.reverse_singleton, List.singleton_append,
        List.foldl_cons, ih _ (by simpa), one_mul]
      by_cases hlast : i = 4 + count
      · subst hlast
        rw [if_neg (by omega), getD_xorAt, if_pos ⟨rfl, hi⟩, if_pos (by omega)]
      · have hbyte : (xorAt x (4 + count)).getD i 0 = x.getD i 0 := by
          rw [getD_xorAt, if_neg (by omega)]
        by_cases hbelow : 4 ≤ i ∧ i < 4 + count
        · rw [if_pos hbelow, if_pos (by omega), hbyte, getD_xorAt, if_neg (by omega)]
        · rw [if_neg hbelow, if_neg (by omega), hbyte]

theorem getD_xorbkd (x : Bytes) {i : Nat} (hi : i < x.length) (hfour : 4 ≤ i) :
    (xorbkd x).getD i 0 = x.getD i 0 ^^^ x.getD (i - 4) 0 := by
  rw [xorbkd, getD_foldl_reverse _ _ hi, if_pos (by omega)]

end Xor

section Open

variable (plain : Bytes)

theorem length_frame : (frame plain).length = overhead + plain.length := by
  simp only [frame, putUint32, putUint16, List.length_append, List.length_cons, List.length_nil, overhead]
  omega

@[simp]
theorem length_sealTo_fst (capacity : Nat) : (sealTo capacity plain).1.length = (frame plain).length := by
  simp [sealTo, xorfwd]

/-- **`Open` undoes `Seal` exactly for the texts whose length fits two bytes.** -/
theorem openText_sealTo_iff (capacity : Nat) :
    openText (sealTo capacity plain).1 = .ok plain ↔ plain.length < 65536 := by
  have hopen : (xorbkd ((sealTo capacity plain).1 ++
      List.replicate (padding (sealTo capacity plain).1.length) 0)).take (sealTo capacity plain).1.length =
      frame plain := by
    rw [length_sealTo_fst]
    exact xorbkd_xorfwd (frame plain) (padding (frame plain).length)
  have hdrop : (frame plain).drop 4 = putUint16 (UInt16.ofNat plain.length) ++ plain := rfl
  have hdrop' : (frame plain).drop overhead = plain := rfl
  rw [openText, hopen]
  rw [if_neg (by rw [length_frame]; omega), if_neg, length_frame, hdrop, hdrop', uint16_putUint16_append,
    UInt16.toNat_ofNat']
  · constructor
    · intro hok
      by_contra hlong
      rw [if_pos (by omega)] at hok
      cases hok
    · intro hshort
      rw [if_neg (by omega)]
  · rw [hdrop, not_not]
    exact uint32_putUint32_append _ _

/-- What `Open` makes of a frame that was left in the array as it was. -/
theorem getD_openText_frame {out : Bytes} (hopen : openText (frame plain) = .ok out) {k : Nat}
    (hk : k < plain.length) : out.getD k 0 = plain.getD k 0 ^^^ (frame plain).getD (k + 2) 0 := by
  have hlength : (frame plain).length = 6 + plain.length := length_frame plain
  have hget : (frame plain).getD (6 + k) 0 = plain.getD k 0 := by
    rw [Nat.add_comm]
    rfl
  rw [openText] at hopen
  split_ifs at hopen
  rw [← Except.ok.inj hopen, List.getD_eq_getElem?_getD, List.getElem?_drop, show overhead = 6 from rfl,
    List.getElem?_take_of_lt (by omega), ← List.getD_eq_getElem?_getD,
    getD_xorbkd _ (by rw [List.length_append]; omega) (by omega), getD_append_of_lt _ (by omega),
    getD_append_of_lt _ (by omega), hget, show 6 + k - 4 = k + 2 by omega]

end Open

end SimpleAuthenticator

section Packets

open SimpleAuthenticator

variable {header : Option Bytes} {security : Security} {drawn : Bytes} {segs : List (Segment Bytes)}

/-- The packet with these segments is written, and read back as the same segments. -/
def Decodes (header : Option Bytes) (security : Security) (drawn : Bytes) (segs : List (Segment Bytes)) : Prop :=
  ∃ packet, KCPPacketWriter.write header (some security) drawn (segs.flatMap Segment.serialize) = .ok packet ∧
    KCPPacketReader.read (header.map List.length) (some security) packet = .ok (segs.map Segment.wire)

/-- The padding of `SimpleAuthenticator` has room in the array of the writer, unless there is nothing to read;
another AEAD has a nonce, or there is no header to be taken for it. -/
def HasRoom (header : Option Bytes) (segs : List (Segment Bytes)) : Security → Prop
  | .simple =>
      let dstLen := overhead + (segs.flatMap Segment.serialize).length
      segs = [] ∨ (header.getD []).length + dstLen + padding dstLen ≤ arraySize
  | .aead cipher => 0 < cipher.nonceSize ∨ header.getD [] = []

theorem read_append (security : Security) {out : Bytes} (hsize : (header.getD []).length + out.length ≤ arraySize) :
    KCPPacketReader.read (header.map List.length) (some security) (header.getD [] ++ out) =
      (readPlain (some security) out >>= read.segments) := by
  cases header with
  | none => rfl
  | some header =>
      rw [Option.getD_some, arraySize] at hsize
      have hint : int32 ((header ++ out).length : Int) = header.length + out.length := by
        rw [List.length_append, Nat.cast_add]
        exact int32_eq (by omega) (by omega)
      simp only [Option.map_some, Option.getD_some, KCPPacketReader.read, hint]
      by_cases hout : out = []
      · subst hout
        rw [if_pos (by simp)]
        rfl
      · have hpos := List.length_pos_iff.mpr hout
        have hslice : sliceFrom (header ++ out) header.length = .ok out := by
          rw [sliceFrom, slice, if_pos (by simp)]
          simp only [Int.toNat_natCast, List.take_length, List.drop_left]
        rw [if_neg (by omega), hslice]
        rfl

theorem serialize_eq_nil_iff : segs.flatMap Segment.serialize = [] ↔ segs = [] := by
  refine ⟨fun hnil => ?_, fun hnil => hnil ▸ rfl⟩
  refine List.eq_nil_iff_forall_not_mem.mpr fun seg hseg => ?_
  have hempty := List.flatMap_eq_nil_iff.mp hnil seg hseg
  have hlong := four_le_length_serialize seg
  rw [hempty] at hlong
  exact absurd hlong (by decide)

theorem write_eq (security : Security) (b : Bytes) (hdrawn : drawn.length = security.nonceSize)
    (hfits : (header.getD []).length + security.nonceSize + (security.overhead + b.length) ≤ arraySize) :
    KCPPacketWriter.write header (some security) drawn b =
      (security.sealTo (arraySize - (header.getD [] ++ drawn).length)
        (KCPPacketWriter.lastBytes (header.getD [] ++ drawn) security.nonceSize) b >>= fun out =>
          .ok (header.getD [] ++ drawn ++ out)) := by
  unfold KCPPacketWriter.write
  rw [if_neg (by omega)]
  dsimp only
  rw [if_neg (by omega), if_neg (by rw [List.length_append]; omega)]

theorem readPlain_simple {out b : Bytes} (hout : out.length = overhead + b.length) :
    readPlain (some .simple) out =
      if b = [] then .ok none else Security.simple.openText [] out := by
  unfold readPlain
  dsimp only [Security.nonceSize, Security.overhead]
  rw [hout, List.take_zero, List.drop_zero]
  refine if_congr ?_ rfl rfl
  rw [← List.length_eq_zero_iff]
  omega

theorem length_sealTo_snd (capacity : Nat) (b : Bytes) : (sealTo capacity b).2.length = overhead + b.length := by
  rw [← length_frame]
  unfold sealTo
  dsimp only
  split
  · exact length_sealTo_fst b capacity
  · rfl

theorem eq_zero_of_eq_xor {x y : UInt8} (h : x = x ^^^ y) : y = 0 := by
  have hxor := congrArg (x ^^^ ·) h
  simpa [← UInt8.xor_assoc] using hxor.symm

/-- The first segment is not read from a frame that was left as it was: its command or its option has changed. -/
theorem not_readSegments_of_frame {seg : Segment Bytes} {rest : List (Segment Bytes)} {out : Bytes}
    (hseg : seg.Sendable) (hshort : ((seg :: rest).flatMap Segment.serialize).length < 65536)
    (hopen : SimpleAuthenticator.openText (frame ((seg :: rest).flatMap Segment.serialize)) = .ok out)
    (hread : readSegments out.length out = .ok ((seg :: rest).map Segment.wire)) : False := by
  generalize hplain : (seg :: rest).flatMap Segment.serialize = plain at hshort hopen
  rw [List.flatMap_cons] at hplain
  have hhead : ∀ {b : Bytes} {k : Nat} {x : UInt8}, b[k]? = some x → b.getD k 0 = x := by
    intro b k x hx
    rw [List.getD_eq_getElem?_getD, hx]
    rfl
  -- the command and the option, where they were written and where they are read
  obtain ⟨r, hr, hsent⟩ := returns_readSegment plain
  rw [← hplain, readSegment_serialize hseg] at hr
  obtain rfl := Except.ok.inj hr
  have hlong : 4 ≤ plain.length := by
    rw [← hplain, List.length_append]
    exact (four_le_length_serialize seg).trans (Nat.le_add_right _ _)
  obtain ⟨r', hr', hreceived⟩ := returns_readSegment out
  have hfirst : ∃ tail, r' = some (seg.wire, tail) := by
    have hne : out ≠ [] := by
      rintro rfl
      exact absurd hread nofun
    obtain ⟨fuel, hfuel⟩ : ∃ fuel, out.length = fuel + 1 :=
      ⟨out.length - 1, by have := List.length_pos_iff.mpr hne; omega⟩
    rw [hfuel, readSegments_succ fuel hne, hr', ok_bind] at hread
    match r' with
    | none => exact absurd hread nofun
    | some (first, tail) =>
        cases hsegs : readSegments fuel tail with
        | error err => simp only [hsegs] at hread; cases hread
        | ok segs =>
            simp only [hsegs, ok_bind] at hread
            obtain ⟨rfl, -⟩ := List.cons.inj (Except.ok.inj hread)
            exact ⟨tail, rfl⟩
  obtain ⟨tail, rfl⟩ := hfirst
  have hcommand := getD_openText_frame plain hopen (k := 2) (by omega)
  have hoption := getD_openText_frame plain hopen (k := 3) (by omega)
  rw [hhead hreceived.2.1, hhead hsent.2.1] at hcommand
  rw [hhead hreceived.2.2, hhead hsent.2.2] at hoption
  have hhigh : UInt8.ofNat ((UInt16.ofNat plain.length).toNat / 256) = 0 := eq_zero_of_eq_xor hcommand
  have hlow : UInt8.ofNat (UInt16.ofNat plain.length).toNat = 0 := eq_zero_of_eq_xor hoption
  rw [toNat_ofNat_uint16 hshort] at hhigh hlow
  have hhigh' := congrArg UInt8.toNat hhigh
  have hlow' := congrArg UInt8.toNat hlow
  simp only [UInt8.toNat_ofNat', UInt8.toNat_zero] at hhigh' hlow'
  omega

theorem decodes_simple_iff (hsegs : ∀ seg ∈ segs, seg.Sendable)
    (hfits : (header.getD []).length + (overhead + (segs.flatMap Segment.serialize).length) ≤ arraySize) :
    Decodes header .simple [] segs ↔ HasRoom header segs .simple := by
  have hwrite : KCPPacketWriter.write header (some .simple) [] (segs.flatMap Segment.serialize) =
      .ok (header.getD [] ++
        (sealTo (arraySize - (header.getD []).length) (segs.flatMap Segment.serialize)).2) := by
    rw [write_eq .simple _ rfl hfits, List.append_nil]
    rfl
  have hlength := length_sealTo_snd (arraySize - (header.getD []).length) (segs.flatMap Segment.serialize)
  have hsize : (header.getD []).length +
      (sealTo (arraySize - (header.getD []).length) (segs.flatMap Segment.serialize)).2.length ≤ arraySize := by
    rw [hlength]
    exact hfits
  have hread := read_append .simple hsize
  have hdecodes : Decodes header .simple [] segs ↔
      (readPlain (some .simple)
        (sealTo (arraySize - (header.getD []).length) (segs.flatMap Segment.serialize)).2 >>=
          read.segments) = .ok (segs.map Segment.wire) := by
    rw [← hread]
    unfold Decodes
    rw [hwrite]
    constructor
    · rintro ⟨packet, hpacket, hok⟩
      rwa [← Except.ok.inj hpacket] at hok
    · intro hok
      exact ⟨_, rfl, hok⟩
  rw [hdecodes, readPlain_simple hlength]
  cases segs with
  | nil =>
      rw [if_pos List.flatMap_nil]
      exact iff_of_true rfl (Or.inl rfl)
  | cons seg rest =>
      have hshort : ((seg :: rest).flatMap Segment.serialize).length < 65536 := by
        unfold arraySize at hfits
        omega
      rw [if_neg (fun hnil => List.cons_ne_nil _ _ (serialize_eq_nil_iff.mp hnil))]
      have hroom : HasRoom header (seg :: rest) .simple ↔
          (frame ((seg :: rest).flatMap Segment.serialize)).length +
            padding (frame ((seg :: rest).flatMap Segment.serialize)).length ≤
              arraySize - (header.getD []).length := by
        unfold HasRoom
        rw [length_frame]
        simp only [List.cons_ne_nil, false_or]
        omega
      rw [hroom]
      constructor
      · intro hok
        by_contra hnone
        have hframe : (sealTo (arraySize - (header.getD []).length)
            ((seg :: rest).flatMap Segment.serialize)).2 = frame ((seg :: rest).flatMap Segment.serialize) :=
          if_neg hnone
        rw [hframe, Security.openText] at hok
        cases hopen : SimpleAuthenticator.openText (frame ((seg :: rest).flatMap Segment.serialize)) with
        | ok out =>
            rw [hopen] at hok
            exact not_readSegments_of_frame (hsegs seg List.mem_cons_self) hshort hopen hok
        | error err =>
            rw [hopen] at hok
            cases err <;> exact absurd hok nofun
      · intro hfit
        have hsealed : (sealTo (arraySize - (header.getD []).length)
            ((seg :: rest).flatMap Segment.serialize)).2 = (sealTo (arraySize - (header.getD []).length)
            ((seg :: rest).flatMap Segment.serialize)).1 := if_pos hfit
        rw [hsealed, Security.openText, (openText_sealTo_iff _ _).mpr hshort]
        exact readSegments_serialize hsegs le_rfl

theorem decodes_aead_iff {cipher : Aead} (hsegs : ∀ seg ∈ segs, seg.Sendable)
    (hdrawn : drawn.length = cipher.nonceSize)
    (hfits : (header.getD []).length + cipher.nonceSize +
      (cipher.overhead + (segs.flatMap Segment.serialize).length) ≤ arraySize) :
    Decodes header (.aead cipher) drawn segs ↔ HasRoom header segs (.aead cipher) := by
  generalize hb : segs.flatMap Segment.serialize = b at hfits
  have hplain : readPlain (some (.aead cipher)) (drawn ++ cipher.sealText drawn b) =
      if b = [] then .ok none else .ok (some b) := by
    refine if_congr ?_ rfl ?_
    · change _ ≤ cipher.nonceSize + cipher.overhead ↔ _
      rw [List.length_append, cipher.length_sealText, hdrawn, ← List.length_eq_zero_iff]
      omega
    · change Except.ok (cipher.openText (List.take cipher.nonceSize _) (List.drop cipher.nonceSize _)) = _
      rw [← hdrawn, List.take_left, List.drop_left, cipher.openText_sealText]
  unfold Decodes
  rw [hb, write_eq (.aead cipher) _ hdrawn hfits, Security.sealTo]
  constructor
  · rintro ⟨packet, hpacket, -⟩
    by_contra hnone
    obtain ⟨hzero, hheader⟩ := not_or.mp hnone
    rw [Nat.not_lt, Nat.le_zero] at hzero
    have hall : KCPPacketWriter.lastBytes (header.getD [] ++ drawn) (Security.aead cipher).nonceSize =
        header.getD [] ++ drawn := if_pos hzero
    rw [if_neg] at hpacket
    · cases hpacket
    · rw [hall, List.length_append]
      have := List.length_pos_iff.mpr hheader
      omega
  · intro hroom
    have hnonce : KCPPacketWriter.lastBytes (header.getD [] ++ drawn) (Security.aead cipher).nonceSize =
        drawn := by
      change KCPPacketWriter.lastBytes _ cipher.nonceSize = _
      unfold KCPPacketWriter.lastBytes
      split
      · next hzero =>
          rw [hzero] at hdrawn
          rw [HasRoom, hzero] at hroom
          obtain habsurd | hheader := hroom
          · exact absurd habsurd (lt_irrefl 0)
          · rw [hheader, List.nil_append]
      · rw [List.length_append, hdrawn, Nat.add_sub_cancel, List.drop_left]
    rw [hnonce, if_pos hdrawn]
    refine ⟨_, rfl, ?_⟩
    rw [List.append_assoc, read_append _ (by
      rw [List.length_append, cipher.length_sealText]
      omega), hplain]
    split
    · next hempty =>
        rw [serialize_eq_nil_iff.mp (hb.trans hempty)]
        rfl
    · rw [← hb]
      exact readSegments_serialize hsegs le_rfl

/-- Reading never panics and never hangs. -/
theorem returns_read (headerSize : Option Nat) (security : Security) (b : Bytes) :
    Returns (KCPPacketReader.read headerSize (some security) b) fun segs => ∃ plain, Consumes plain segs := by
  have hsegments : ∀ plain, Returns (read.segments plain) fun segs =>
      ∃ plain, Consumes plain segs := by
    intro plain
    cases plain with
    | none => exact ⟨[], rfl, [], .stop []⟩
    | some plain =>
        obtain ⟨segs, hok, hsegs⟩ := returns_readSegments (le_refl plain.length)
        exact ⟨segs, hok, plain, hsegs⟩
  have hplain : ∀ b, Returns (readPlain (some security) b) fun _ => True := by
    intro b
    unfold readPlain
    dsimp only
    split
    · exact ⟨_, rfl, trivial⟩
    · next hlong =>
        cases security with
        | aead cipher => exact ⟨_, rfl, trivial⟩
        | simple =>
            rw [Security.openText]
            cases hopen : SimpleAuthenticator.openText (b.drop 0) with
            | ok plain => exact ⟨_, by rw [Security.nonceSize, hopen], trivial⟩
            | error err =>
                rw [Security.nonceSize, hopen]
                cases err with
                | panicked =>
                    rw [SimpleAuthenticator.openText] at hopen
                    simp only [Security.nonceSize, Security.overhead] at hlong
                    rw [if_neg (by
                      rw [List.drop_zero, xorbkd, List.length_take, length_foldl_xorAt, List.length_append]
                      omega)] at hopen
                    split_ifs at hopen <;> cases hopen
                | _ => exact ⟨_, rfl, trivial⟩
  unfold KCPPacketReader.read
  cases headerSize with
  | none => exact (hplain b).bind fun plain _ => hsegments plain
  | some size =>
      dsimp only
      split
      · exact ⟨[], rfl, [], .stop []⟩
      · next hlong =>
          have hle : (size : Int) ≤ b.length := by
            have hbmod : int32 (b.length : Int) ≤ b.length := int32_le_of_nonneg (Int.natCast_nonneg _)
            omega
          obtain ⟨b', hslice⟩ : ∃ b', sliceFrom b size = .ok b' := by
            rw [sliceFrom, slice, if_pos ⟨Int.natCast_nonneg _, hle, le_rfl⟩]
            exact ⟨_, rfl⟩
          rw [hslice]
          exact (hplain b').bind fun plain _ => hsegments plain

/-- **A packet decodes to the segments sent exactly when the writer's array has room for the padding** (or,
with another AEAD, when its nonce is not empty or there is no header); reading any bytes returns, with at least
a byte taken for each segment; and `Open` undoes `Seal` exactly up to 65535 bytes. -/
theorem decodes_iff_hasRoom (hsegs : ∀ seg ∈ segs, seg.Sendable) (hdrawn : drawn.length = security.nonceSize)
    (hfits : (header.getD []).length + security.nonceSize +
      (security.overhead + (segs.flatMap Segment.serialize).length) ≤ arraySize) :
    (Decodes header security drawn segs ↔ HasRoom header segs security) ∧
    (∀ headerSize b, ∃ read, KCPPacketReader.read headerSize (some security) b = .ok read ∧
      ∃ plain, Consumes plain read) ∧
    ∀ capacity plain, SimpleAuthenticator.openText (sealTo capacity plain).1 = .ok plain ↔
      plain.length < 65536 := by
  refine ⟨?_, fun headerSize b => returns_read headerSize security b, fun capacity plain =>
    openText_sealTo_iff plain capacity⟩
  cases security with
  | simple =>
      obtain rfl := List.eq_nil_of_length_eq_zero hdrawn
      exact decodes_simple_iff hsegs hfits
  | aead cipher => exact decodes_aead_iff hsegs hdrawn hfits

/-- Data, an acknowledgement of two segments and a ping go through in one packet, with a header. -/
theorem decodes_three :
    Decodes (some [1, 2, 3, 4]) .simple []
      [.data { conv := 7, number := 5, payload := [10, 20] }, .ack { receivingNext := 4, numberList := [4, 6] },
        .cmdOnly { cmd := CommandPing, sendingNext := 1, receivingNext := 2, peerRTO := 3 }] := by
  refine (decodes_iff_hasRoom ?_ rfl (by decide)).1.mpr (Or.inr (by decide))
  simp [Segment.Sendable, ackNumberLimit, CommandPing, CommandACK, CommandData]

/-- With a header of 13 bytes and a segment that fills the packet up to two bytes, the padding has no room. -/
theorem not_decodes_of_length {header payload : Bytes} (hheader : header.length = 13)
    (hpayload : payload.length = 8153) :
    ¬ Decodes (some header) .simple [] [.data { number := 0, payload }] := by
  have hlength : ([Segment.data { number := 0, payload }].flatMap Segment.serialize).length = 8171 := by
    rw [List.flatMap_singleton, length_serialize, Segment.byteSize, hpayload]
  rw [decodes_simple_iff]
  · rintro (hnil | hroom)
    · exact absurd hnil (List.cons_ne_nil _ _)
    · rw [hlength, Option.getD_some, hheader] at hroom
      exact absurd hroom (by decide)
  · refine List.forall_mem_singleton.mpr ?_
    rw [Segment.Sendable, hpayload]
    decide
  · rw [hlength, Option.getD_some, hheader]
    decide

theorem not_decodes_padding :
    ¬ Decodes (some (List.replicate 13 0)) .simple []
      [.data { number := 0, payload := List.replicate 8153 0 }] :=
  not_decodes_of_length List.length_replicate List.length_replicate

end Packets

end V2RootCore.Kcp
