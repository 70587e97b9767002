import V2RootCore.Proof.Buf.RawBuffer
import V2RootCore.Buf.RawMulti

/-!
# Multi-buffers keep their content

Each operation is described by the content of the buffers. Two of them do not always return what they
should: `Compact` panics at an empty buffer that is not the first one, and `SplitSize` copies a part of a
buffer into one from the pool, returns nothing if empty buffers stand before a long one, and adds up
lengths as `int32`.
-/

namespace V2RootCore.Buf

open Go RawBuffer

/-- A buffer and what is in it. -/
structure RawBuffer.Carries (b : RawBuffer) (content : Bytes) : Prop where
  sound : b.Sound
  length_lt : b.v.length < 2 ^ 31
  content : (b.v.take b.stop.toNat).drop b.start.toNat = content

section Carries

variable {b : RawBuffer} {content : Bytes} (h : b.Carries content)

include h

namespace RawBuffer.Carries

theorem length : (content.length : Int) = b.stop - b.start := by
  have := h.sound.start_nonneg
  have := h.sound.start_le
  have := h.sound.stop_le
  rw [← h.content, List.length_drop, List.length_take]
  omega

theorem len : b.len = content.length := by
  rw [h.sound.len_eq, h.length]

theorem isEmpty_iff : b.isEmpty = true ↔ content = [] := by
  rw [isEmpty, decide_eq_true_iff, h.len, Int.natCast_eq_zero, List.length_eq_zero_iff]

theorem available : b.available = b.v.length - b.stop := by
  have := h.sound.start_nonneg
  have := h.sound.start_le
  have := h.sound.stop_le
  have := h.length_lt
  have hcap : int32 (b.v.length : Int) = b.v.length := int32_eq (by omega) (by omega)
  rw [RawBuffer.available, hcap, int32_eq (by omega) (by omega)]

theorem advance {n : Nat} (hn : n ≤ content.length) :
    { b with start := b.start + n }.Carries (content.drop n) := by
  have hlength := h.length
  have := h.sound.start_nonneg
  refine ⟨⟨?_, ?_, h.sound.stop_le, h.sound.stop_lt⟩, h.length_lt, ?_⟩
  · change 0 ≤ b.start + n
    omega
  · change b.start + n ≤ b.stop
    omega
  · change (b.v.take b.stop.toNat).drop (b.start + n).toNat = content.drop n
    rw [← h.content, List.drop_drop, show (b.start + n).toNat = b.start.toNat + n by omega]

theorem clear : { b with start := 0, stop := 0 }.Carries [] :=
  ⟨⟨le_rfl, le_rfl, Int.natCast_nonneg _, (by norm_num : (0 : Int) < 2 ^ 31)⟩, h.length_lt, rfl⟩

theorem read (hne : content ≠ []) (n : Nat) :
    ∃ b', RawBuffer.read n b = .ok (content.take n, b') ∧ b'.Carries (content.drop n) := by
  have hlen := h.len
  have hpos := List.length_pos_iff.mpr hne
  have := h.sound.start_nonneg
  have := h.sound.stop_lt
  have hlength := h.length
  have hslice : slice b.v b.start b.stop = .ok content := by
    rw [slice, if_pos ⟨h.sound.start_nonneg, h.sound.start_le, h.sound.stop_le⟩, h.content]
  have htake : (content.take n).length = min n content.length := List.length_take
  rw [RawBuffer.read, if_neg (by omega), hslice, ok_bind]
  refine ⟨_, rfl, ?_⟩
  rw [hlen, int32_eq (by omega) (by omega)]
  split_ifs with hall
  · rw [List.drop_eq_nil_of_le (by omega)]
    exact h.clear
  · rw [int32_eq (by omega) (by omega), show (content.take n).length = n by omega]
    exact h.advance (by omega)

theorem append (data : Bytes) :
    ∃ b', b.append data = .ok ((data.take (b.v.length - b.stop.toNat)).length, b') ∧
      b'.Carries (content ++ data.take (b.v.length - b.stop.toNat)) := by
  have hstart := h.sound.start_nonneg
  have hle := h.sound.start_le
  have hstop := h.sound.stop_le
  have hlt := h.length_lt
  have hroom : sliceFrom b.v b.stop = .ok (b.v.drop b.stop.toNat) := by
    rw [sliceFrom, slice, if_pos (by omega), Int.toNat_natCast, List.take_length]
  rw [RawBuffer.append, hroom, ok_bind, List.length_drop]
  have hcopied : (data.take (b.v.length - b.stop.toNat)).length ≤ b.v.length - b.stop.toNat :=
    List.length_take_le _ _
  generalize data.take (b.v.length - b.stop.toNat) = copied at hcopied
  have hlength : (copyTo b.v b.stop.toNat copied).length = b.v.length := length_copyTo (by omega)
  refine ⟨_, rfl, ⟨hstart, ?_, ?_, ?_⟩, by dsimp only; omega, ?_⟩
  · change b.start ≤ int32 (b.stop + copied.length)
    rw [int32_eq (by omega) (by omega)]
    omega
  · change int32 (b.stop + copied.length) ≤ (copyTo b.v b.stop.toNat copied).length
    rw [int32_eq (by omega) (by omega)]
    omega
  · exact (int32_range _).2
  · have hfront : (b.v.take b.stop.toNat ++ copied).length = (b.stop + copied.length).toNat := by
      rw [List.length_append, List.length_take]
      omega
    change ((copyTo b.v b.stop.toNat copied).take (int32 (b.stop + copied.length)).toNat).drop
      b.start.toNat = _
    rw [int32_eq (by omega) (by omega), ← hfront, copyTo, List.take_left,
      List.drop_append_of_le_length (by rw [List.length_take]; omega), h.content]

end RawBuffer.Carries

end Carries

def RawBuffer.content (b : RawBuffer) : Bytes := (b.v.take b.stop.toNat).drop b.start.toNat

namespace RawMulti

/-- Every buffer has its indices in order. -/
def Proper (mb : RawMulti) : Prop := ∀ b ∈ mb, b.Carries b.content

def bytes (mb : RawMulti) : Bytes := mb.flatMap RawBuffer.content

variable {mb : RawMulti} {b : RawBuffer}

theorem bytes_cons (b : RawBuffer) (mb : RawMulti) : bytes (b :: mb) = b.content ++ bytes mb := rfl

theorem bytes_append (mb mb' : RawMulti) : bytes (mb ++ mb') = bytes mb ++ bytes mb' :=
  List.flatMap_append

theorem bytes_singleton (b : RawBuffer) : bytes [b] = b.content := List.append_nil _

theorem proper_singleton {content : Bytes} (h : b.Carries content) : Proper [b] := by
  rintro b' hb'
  rw [List.mem_singleton.mp hb']
  exact ⟨h.sound, h.length_lt, rfl⟩

theorem proper_append {mb mb' : RawMulti} : Proper (mb ++ mb') ↔ Proper mb ∧ Proper mb' :=
  List.forall_mem_append

theorem proper_cons : Proper (b :: mb) ↔ b.Carries b.content ∧ Proper mb :=
  List.forall_mem_cons

theorem content_eq {content : Bytes} (h : b.Carries content) : b.content = content :=
  h.content

section Merge

theorem carries_new : RawBuffer.new.Carries [] :=
  ⟨holds_new.sound, by rw [holds_new.length]; decide, rfl⟩

theorem fillNew_spec {fuel : Nat} {src : Bytes} (hfuel : src.length < fuel) (h : Proper mb) :
    ∃ mb', fillNew fuel mb src = .ok mb' ∧ Proper mb' ∧ bytes mb' = bytes mb ++ src := by
  induction fuel generalizing mb src with
  | zero => exact absurd hfuel (Nat.not_lt_zero _)
  | succ fuel ih =>
      rw [fillNew]
      split_ifs with hnil
      · exact ⟨mb, rfl, h, by rw [hnil, List.append_nil]⟩
      · obtain ⟨b, happend, hb⟩ := carries_new.append src
        have hroom : RawBuffer.new.v.length - RawBuffer.new.stop.toNat = 8192 := by
          rw [holds_new.length]
          rfl
        rw [hroom] at happend hb
        have hpos := List.length_pos_iff.mpr hnil
        have hless : (src.drop (src.take 8192).length).length < fuel := by
          rw [List.length_drop, List.length_take]
          omega
        rw [happend, ok_bind]
        obtain ⟨mb', hfill, hproper, hbytes⟩ := ih hless (proper_append.mpr ⟨h, proper_singleton hb⟩)
        refine ⟨mb', hfill, hproper, ?_⟩
        rw [hbytes, bytes_append, bytes_singleton, content_eq hb, List.nil_append, List.append_assoc,
          List.prefix_iff_eq_append.mp (List.take_prefix 8192 src)]

theorem mergeBytes_spec (h : Proper mb) (src : Bytes) :
    ∃ mb', mergeBytes mb src = .ok mb' ∧ Proper mb' ∧ bytes mb' = bytes mb ++ src := by
  rw [mergeBytes]
  cases mb using List.reverseRecOn with
  | nil => exact fillNew_spec (Nat.lt_succ_self _) h
  | append_singleton mb last =>
      rw [List.getLast?_concat]
      dsimp only
      split_ifs
      · exact fillNew_spec (Nat.lt_succ_self _) h
      · obtain ⟨hmb, hlast⟩ := proper_append.mp h
        obtain ⟨last', happend, hlast'⟩ := (hlast last List.mem_cons_self).append src
        rw [happend, ok_bind, List.dropLast_concat]
        have hless : (src.drop (src.take (last.v.length - last.stop.toNat)).length).length <
            src.length + 1 := by
          rw [List.length_drop]
          omega
        obtain ⟨mb', hfill, hproper, hbytes⟩ :=
          fillNew_spec hless (proper_append.mpr ⟨hmb, proper_singleton hlast'⟩)
        refine ⟨mb', hfill, hproper, ?_⟩
        rw [hbytes, bytes_append, bytes_singleton, content_eq hlast', List.append_assoc, List.append_assoc,
          List.prefix_iff_eq_append.mp (List.take_prefix _ src), bytes_append, bytes_singleton,
          List.append_assoc]

end Merge

theorem splitBytes_spec (h : Proper mb) (n : Nat) :
    ∃ left, splitBytes mb n = .ok (left, (bytes mb).take n) ∧ Proper left ∧
      bytes left = (bytes mb).drop n := by
  induction mb generalizing n with
  | nil => exact ⟨[], by rw [splitBytes, bytes, List.flatMap_nil, List.take_nil], h, by simp [bytes]⟩
  | cons b mb ih =>
      obtain ⟨hb, hmb⟩ := proper_cons.mp h
      rw [splitBytes, bytes_cons]
      by_cases hne : b.content = []
      · have hlen : b.len = 0 := by rw [hb.len, hne, List.length_nil, Nat.cast_zero]
        rw [RawBuffer.read, if_pos hlen, hne, List.nil_append]
        exact ih hmb n
      · obtain ⟨b', hread, hb'⟩ := hb.read hne n
        rw [hread]
        dsimp only
        split_ifs with hempty
        · have hall : b.content.length ≤ n := List.drop_eq_nil_iff.mp (hb'.isEmpty_iff.mp hempty)
          obtain ⟨left, hsplit, hproper, hbytes⟩ := ih hmb (n - (b.content.take n).length)
          rw [List.take_of_length_le hall] at hsplit hbytes ⊢
          rw [hsplit, ok_bind]
          refine ⟨left, ?_, hproper, ?_⟩
          · rw [List.take_append, List.take_of_length_le hall]
          · rw [hbytes, List.drop_append, List.drop_eq_nil_of_le hall, List.nil_append]
        · have hless : n ≤ b.content.length := by
            by_contra hlt
            exact hempty (hb'.isEmpty_iff.mpr (List.drop_eq_nil_of_le (by omega)))
          refine ⟨b' :: mb, ?_, proper_cons.mpr ⟨⟨hb'.sound, hb'.length_lt, rfl⟩, hmb⟩, ?_⟩
          · rw [List.take_append_of_le_length hless]
          · rw [bytes_cons, content_eq hb', List.drop_append_of_le_length hless]

section Compact

theorem mustReadFrom_spec {b curr : RawBuffer} (hb : b.Carries b.content) (hcurr : curr.Carries curr.content)
    (hroom : ¬b.available < curr.len) (hne : curr.content ≠ []) :
    ∃ b', b.mustReadFrom curr = .ok b' ∧ b'.Carries (b.content ++ curr.content) := by
  have hstart := hb.sound.start_nonneg
  have hle := hb.sound.start_le
  have hstop := hb.sound.stop_le
  rw [hb.available, hcurr.len] at hroom
  have hslice : sliceFrom b.v b.stop = .ok (b.v.drop b.stop.toNat) := by
    rw [sliceFrom, slice, if_pos (by omega), Int.toNat_natCast, List.take_length]
  obtain ⟨curr', hread, -⟩ := hcurr.read hne (b.v.drop b.stop.toNat).length
  have htake : ∀ n, n = b.v.length - b.stop.toNat → curr.content.take n = curr.content := fun n hn =>
    List.take_of_length_le (by omega)
  obtain ⟨b', happend, hb'⟩ := hb.append curr.content
  rw [htake _ rfl] at happend hb'
  rw [htake _ List.length_drop] at hread
  refine ⟨b', ?_, hb'⟩
  rw [mustReadFrom, hslice, ok_bind, hread]
  dsimp only
  rw [happend, ok_bind]

theorem mustReadFrom_of_nil {b curr : RawBuffer} (hb : b.Carries b.content)
    (hcurr : curr.Carries curr.content) (hnil : curr.content = []) :
    b.mustReadFrom curr = .error .panicked := by
  have hlen : curr.len = 0 := by rw [hcurr.len, hnil, List.length_nil, Nat.cast_zero]
  have hstart := hb.sound.start_nonneg
  have hle := hb.sound.start_le
  have hstop := hb.sound.stop_le
  rw [mustReadFrom, sliceFrom, slice, if_pos (by omega), ok_bind, RawBuffer.read, if_pos hlen]

theorem compactLoop_spec {last : RawBuffer} (hlast : last.Carries last.content) (mb2 : RawMulti)
    (hmb2 : Proper mb2) (hmb : Proper mb) (hne : ∀ b ∈ mb, b.content ≠ []) :
    ∃ mb', compactLoop last mb2 mb = .ok mb' ∧ Proper mb' ∧
      bytes mb' = bytes mb2 ++ last.content ++ bytes mb := by
  induction mb generalizing last mb2 with
  | nil =>
      refine ⟨mb2 ++ [last], rfl, proper_append.mpr ⟨hmb2, proper_singleton hlast⟩, ?_⟩
      rw [bytes_append, bytes_singleton]
      exact (List.append_nil _).symm
  | cons curr mb ih =>
      obtain ⟨hcurr, hmb⟩ := proper_cons.mp hmb
      obtain ⟨hcurrne, hne⟩ := List.forall_mem_cons.mp hne
      rw [compactLoop]
      split_ifs with hroom
      · obtain ⟨mb', hloop, hproper, hbytes⟩ :=
          ih hcurr _ (proper_append.mpr ⟨hmb2, proper_singleton hlast⟩) hmb hne
        refine ⟨mb', hloop, hproper, ?_⟩
        rw [hbytes, bytes_append, bytes_singleton, bytes_cons]
        simp only [List.append_assoc]
      · obtain ⟨last', hread, hlast'⟩ := mustReadFrom_spec hlast hcurr hroom hcurrne
        have hcontent := content_eq hlast'
        obtain ⟨mb', hloop, hproper, hbytes⟩ := ih (hcontent.symm ▸ hlast') mb2 hmb2 hmb hne
        refine ⟨mb', by rw [hread, ok_bind, hloop], hproper, ?_⟩
        rw [hbytes, hcontent, bytes_cons]
        simp only [List.append_assoc]

theorem compactLoop_panics {last : RawBuffer} {mb2 : RawMulti} (hlast : last.Carries last.content)
    (hmb : Proper mb) (hsome : ∃ b ∈ mb, b.content = []) :
    compactLoop last mb2 mb = .error .panicked := by
  induction mb generalizing last mb2 with
  | nil => simp at hsome
  | cons curr mb ih =>
      obtain ⟨hcurr, hmb⟩ := proper_cons.mp hmb
      rw [compactLoop]
      by_cases hnil : curr.content = []
      · have hlen : curr.len = 0 := by rw [hcurr.len, hnil, List.length_nil, Nat.cast_zero]
        have hstop := hlast.sound.stop_le
        rw [if_neg (by rw [hlast.available, hlen]; omega), mustReadFrom_of_nil hlast hcurr hnil]
        rfl
      · have hsome : ∃ b ∈ mb, b.content = [] := by
          obtain ⟨b, hb, hb'⟩ := hsome
          obtain rfl | hb := List.mem_cons.mp hb
          · exact absurd hb' hnil
          · exact ⟨b, hb, hb'⟩
        split_ifs with hroom
        · exact ih hcurr hmb hsome
        · obtain ⟨last', hread, hlast'⟩ := mustReadFrom_spec hlast hcurr hroom hnil
          rw [hread, ok_bind]
          exact ih ⟨hlast'.sound, hlast'.length_lt, rfl⟩ hmb hsome

theorem compact_iff (h : Proper mb) :
    (∃ mb', compact mb = .ok mb' ∧ bytes mb' = bytes mb) ↔ ∀ b ∈ mb.tail, b.content ≠ [] := by
  cases mb with
  | nil => exact iff_of_true ⟨[], rfl, rfl⟩ nofun
  | cons last mb =>
      obtain ⟨hlast, hmb⟩ := proper_cons.mp h
      constructor
      · rintro ⟨mb', hcompact, -⟩ b hb hnil
        rw [compact, compactLoop_panics hlast hmb ⟨b, hb, hnil⟩] at hcompact
        cases hcompact
      · intro hne
        obtain ⟨mb', hloop, -, hbytes⟩ := compactLoop_spec hlast [] nofun hmb hne
        exact ⟨mb', hloop, hbytes⟩

end Compact

section Size

/-- What `SplitSize` should return. -/
def Splits (mb : RawMulti) (size : Nat) : Prop :=
  ∃ left part, splitSize mb size = .ok (left, part) ∧ bytes part ++ bytes left = bytes mb ∧
    (bytes part).length ≤ size ∧ (bytes mb ≠ [] → bytes part ≠ [])

/-- A part of the first buffer fits into one from the pool. -/
def PartFits (mb : RawMulti) (size : Nat) : Prop :=
  ∀ b rest, mb = b :: rest → size < b.content.length → size ≤ 8192

/-- Empty buffers stand before one that is longer than the part. -/
def Stuck (mb : RawMulti) (size : Nat) : Prop :=
  ∃ front b rest, mb = front ++ b :: rest ∧ front ≠ [] ∧ bytes front = [] ∧ size < b.content.length

/-- The length of some first buffers that fit, and of the next one, is no longer an `int32`. -/
def Wraps (mb : RawMulti) (size total : Nat) : Prop :=
  ∃ front b rest, mb = front ++ b :: rest ∧ total + (bytes front).length ≤ size ∧
    2 ^ 31 ≤ total + (bytes front).length + b.content.length

variable {size total : Nat}

theorem splitWhole_append (size total : Int) (mb : RawMulti) :
    (splitWhole size total mb).2 ++ (splitWhole size total mb).1 = mb := by
  induction mb generalizing total with
  | nil => rfl
  | cons b mb ih =>
      rw [splitWhole]
      split_ifs
      · rfl
      · exact congrArg (b :: ·) (ih _)

theorem length_lt_of_carries {b : RawBuffer} {content : Bytes} (h : b.Carries content) :
    content.length < 2 ^ 31 := by
  have hlength := h.length
  have := h.sound.start_nonneg
  have := h.sound.stop_lt
  omega

theorem wraps_cons {b : RawBuffer} (h : Wraps mb size (total + b.content.length)) :
    Wraps (b :: mb) size total := by
  obtain ⟨front, b', rest, rfl, hle, hwrap⟩ := h
  refine ⟨b :: front, b', rest, rfl, ?_, ?_⟩
  · rw [bytes_cons, List.length_append]
    omega
  · rw [bytes_cons, List.length_append]
    omega

/-- **Whole buffers** are taken as long as they fit, if no sum wraps. -/
theorem splitWhole_spec (hsize : size < 2 ^ 31) (h : Proper mb) (htotal : total ≤ size)
    (hwrap : ¬Wraps mb size total) :
    total + (bytes (splitWhole size total mb).2).length ≤ size ∧
      ∀ b rest, (splitWhole size total mb).1 = b :: rest →
        size < total + (bytes (splitWhole size total mb).2).length + b.content.length := by
  induction mb generalizing total with
  | nil => exact ⟨htotal, nofun⟩
  | cons b mb ih =>
      obtain ⟨hb, hmb⟩ := proper_cons.mp h
      have hlen := hb.len
      have hsum : total + b.content.length < 2 ^ 31 := by
        by_contra hle
        exact hwrap ⟨[], b, mb, rfl, htotal, not_lt.mp hle⟩
      have hint : int32 ((total : Int) + b.len) = ((total + b.content.length : Nat) : Int) := by
        rw [hlen, int32_eq (by omega) (by omega), Nat.cast_add]
      rw [splitWhole, hint]
      split_ifs with hmore
      · refine ⟨htotal, fun b' rest heq => ?_⟩
        obtain ⟨rfl, -⟩ := List.cons.inj heq
        exact Int.ofNat_lt.mp hmore
      · have hfits : total + b.content.length ≤ size := Int.ofNat_le.mp (not_lt.mp hmore)
        obtain ⟨hle, hnext⟩ := ih hmb hfits fun hwrap' => hwrap (wraps_cons hwrap')
        dsimp only
        rw [bytes_cons, List.length_append]
        refine ⟨by omega, fun b' rest heq => ?_⟩
        have := hnext b' rest heq
        omega

theorem int32_neg {x : Int} (hlow : 2 ^ 31 ≤ x) (hhigh : x < 2 ^ 32) : int32 x < 0 := by
  rw [int32, Int.bmod_def]
  split_ifs
  · omega
  · omega

theorem splitWhole_wraps (hsize : size < 2 ^ 31) (h : Proper mb) (hwrap : Wraps mb size total) :
    size < total + (bytes (splitWhole size total mb).2).length := by
  obtain ⟨front, b, rest, rfl, hle, hsum⟩ := hwrap
  induction front generalizing total with
  | nil =>
      have hb := h b List.mem_cons_self
      have hlt := length_lt_of_carries hb
      rw [bytes, List.flatMap_nil, List.length_nil, add_zero] at hle hsum
      have hneg : int32 ((total : Int) + b.len) < 0 := by
        rw [hb.len]
        exact int32_neg (by omega) (by omega)
      rw [List.nil_append, splitWhole, if_neg (by omega)]
      dsimp only
      rw [bytes_cons, List.length_append]
      omega
  | cons c front ih =>
      have hc := h c List.mem_cons_self
      rw [bytes_cons, List.length_append] at hle hsum
      have hint : int32 ((total : Int) + c.len) = ((total + c.content.length : Nat) : Int) := by
        rw [hc.len, int32_eq (by omega) (by omega), Nat.cast_add]
      have hrest := ih (proper_cons.mp h).2 (show total + c.content.length + (bytes front).length ≤ size by omega)
        (by omega)
      rw [List.cons_append, splitWhole, hint, if_neg (by omega)]
      dsimp only
      rw [bytes_cons, List.length_append]
      omega

/-- **A part of the first buffer.** -/
theorem splits_of_long {b : RawBuffer} {rest : RawMulti} (h : Proper (b :: rest)) (hsize : size < 2 ^ 31)
    (hpos : 0 < size) (hlong : size < b.content.length) : Splits (b :: rest) size ↔ size ≤ 8192 := by
  obtain ⟨hb, hrest⟩ := proper_cons.mp h
  have hlen := hb.len
  have hstart := hb.sound.start_nonneg
  have hstop := hb.sound.stop_lt
  have hle := hb.sound.stop_le
  have hlength := hb.length
  have hsplit : splitSize (b :: rest) size = (do
      let extended ← RawBuffer.new.extend size
      let data ← b.bytesTo size
      .ok (b.advance size :: rest,
        [{ extended.2 with v := copyTo extended.2.v 0 (data.take extended.1.length) }])) :=
    if_pos (by omega)
  constructor
  · rintro ⟨left, part, hok, -⟩
    by_contra hbig
    have hextend : RawBuffer.new.extend size = .error .panicked := by
      have hnew : (RawBuffer.new.v.length : Int) = 8192 := congrArg Nat.cast holds_new.length
      rw [RawBuffer.extend, hnew, holds_new.stop, List.length_nil, Nat.cast_zero, zero_add,
        int32_eq (by omega) (by omega), int32_eq (by omega) (by omega), if_pos (by omega)]
    rw [hsplit, hextend] at hok
    cases hok
  · intro hfits
    obtain ⟨part, hextend, hpart⟩ := holds_new.extend (n := size) (by rw [List.length_nil, zero_add]; exact hfits)
    rw [List.nil_append] at hpart
    have hdata : b.bytesTo size = .ok (b.content.take size) := by
      have hmax : max (size : Int) 0 = size := max_eq_left (by omega)
      rw [bytesTo, if_neg (by omega), hmax, int32_eq (by omega) (by omega), slice, if_pos (by omega)]
      refine congrArg Except.ok ?_
      rw [RawBuffer.content, List.take_drop, List.take_take]
      congr 2
      omega
    have hadvance : b.advance size = { b with start := b.start + size } := by
      rw [RawBuffer.advance, if_neg (by omega), int32_eq (by omega) (by omega)]
      exact (hb.advance hlong.le).sound.check_eq
    have htake : (b.content.take size).length = size := by
      rw [List.length_take]
      omega
    rw [hextend, ok_bind, hdata] at hsplit
    dsimp only at hsplit
    rw [ok_bind, List.length_replicate, List.take_of_length_le htake.le, hadvance] at hsplit
    have hbytes : bytes [{ part with v := copyTo part.v 0 (b.content.take size) }] = b.content.take size := by
      have hend : part.stop.toNat = (b.content.take size).length := by
        rw [hpart.stop, List.length_replicate, Int.toNat_natCast, htake]
      rw [bytes_singleton]
      change ((copyTo part.v 0 (b.content.take size)).take part.stop.toNat).drop part.start.toNat = _
      rw [hpart.start, copyTo, List.take_zero, List.nil_append, hend, List.take_left]
      rfl
    refine ⟨_, _, hsplit, ?_, ?_, fun _ => ?_⟩
    · rw [hbytes, bytes_cons, content_eq (hb.advance hlong.le), ← List.append_assoc, List.take_append_drop,
        bytes_cons]
    · rw [hbytes, htake]
    · rw [hbytes]
      exact List.length_pos_iff.mp (htake.symm ▸ hpos)

/-- Nothing stands before a first buffer with content. -/
theorem eq_nil_of_append {b b' : RawBuffer} {front rest rest' : RawMulti} (heq : b :: rest = front ++ b' :: rest')
    (hshort : (bytes front).length < b.content.length) : front = [] := by
  cases front with
  | nil => rfl
  | cons c front =>
      obtain ⟨rfl, -⟩ := List.cons.inj heq
      rw [bytes_cons, List.length_append] at hshort
      omega

theorem splits_of_short {b : RawBuffer} {rest : RawMulti} (h : Proper (b :: rest)) (hsize : size < 2 ^ 31)
    (hshort : b.content.length ≤ size) :
    Splits (b :: rest) size ↔ ¬Stuck (b :: rest) size ∧ ¬Wraps (b :: rest) size 0 := by
  have hsplit : splitSize (b :: rest) size = .ok (splitWhole size ((0 : Nat) : Int) (b :: rest)) :=
    if_neg (by rw [(proper_cons.mp h).1.len]; omega)
  have happend := splitWhole_append size ((0 : Nat) : Int) (b :: rest)
  have hspec := splitWhole_spec hsize h (Nat.zero_le size)
  have hwraps : Wraps (b :: rest) size 0 → _ := splitWhole_wraps hsize h
  generalize splitWhole size ((0 : Nat) : Int) (b :: rest) = split at hsplit happend hspec hwraps
  obtain ⟨left, part⟩ := split
  dsimp only at happend hspec hwraps
  rw [Nat.zero_add] at hwraps hspec
  have hbytes : bytes part ++ bytes left = bytes (b :: rest) := by rw [← bytes_append, happend]
  constructor
  · rintro ⟨left', part', hok, -, hle, hne⟩
    obtain ⟨rfl, rfl⟩ := Prod.mk.inj (Except.ok.inj (hsplit.symm.trans hok))
    have hnot : ¬Wraps (b :: rest) size 0 := fun hwrap => absurd (hwraps hwrap) (not_lt.mpr hle)
    refine ⟨?_, hnot⟩
    rintro ⟨front, b', rest', heq, hfront, hnil, hlong⟩
    have hmb : bytes (b :: rest) ≠ [] := by
      rw [heq, bytes_append, hnil, List.nil_append, bytes_cons]
      exact List.append_ne_nil_of_left_ne_nil (List.length_pos_iff.mp (Nat.zero_lt_of_lt hlong)) _
    obtain ⟨more, rfl, -⟩ | ⟨more, rfl, hmore⟩ := List.append_eq_append_iff.mp (happend.trans heq)
    · rw [bytes_append, List.append_eq_nil_iff] at hnil
      exact hne hmb hnil.1
    · rw [bytes_append, hnil, List.nil_append] at hle hne
      cases more with
      | nil => exact hne hmb rfl
      | cons c more =>
          obtain ⟨rfl, -⟩ := List.cons.inj hmore
          rw [bytes_cons, List.length_append] at hle
          omega
  · rintro ⟨hstuck, hwrap⟩
    obtain ⟨hle, hnext⟩ := hspec hwrap
    refine ⟨left, part, hsplit, hbytes, hle, fun hne hnil => ?_⟩
    rw [hnil, List.length_nil] at hnext
    cases left with
    | nil => exact hne (by rw [← hbytes, hnil]; rfl)
    | cons b' rest' =>
        have hlong : size < b'.content.length := (hnext b' rest' rfl).trans_eq (Nat.zero_add _)
        refine hstuck ⟨part, b', rest', happend.symm, ?_, hnil, hlong⟩
        rintro rfl
        obtain ⟨rfl, -⟩ := List.cons.inj happend
        omega

/-- **When `SplitSize` returns what it should.** -/
theorem splits_iff (h : Proper mb) (hsize : size < 2 ^ 31) (hpos : 0 < size) :
    Splits mb size ↔ PartFits mb size ∧ ¬Stuck mb size ∧ ¬Wraps mb size 0 := by
  cases mb with
  | nil =>
      refine iff_of_true ⟨[], [], rfl, rfl, Nat.zero_le _, id⟩ ⟨nofun, ?_, ?_⟩
      · rintro ⟨front, b, rest, heq, -⟩
        exact List.append_ne_nil_of_right_ne_nil front (List.cons_ne_nil b rest) heq.symm
      · rintro ⟨front, b, rest, heq, -⟩
        exact List.append_ne_nil_of_right_ne_nil front (List.cons_ne_nil b rest) heq.symm
  | cons b rest =>
      have hb := (proper_cons.mp h).1
      by_cases hlong : size < b.content.length
      · have hstuck : ¬Stuck (b :: rest) size := by
          rintro ⟨front, b', rest', heq, hne, hnil, -⟩
          exact hne (eq_nil_of_append heq (by rw [hnil, List.length_nil]; omega))
        have hwrap : ¬Wraps (b :: rest) size 0 := by
          rintro ⟨front, b', rest', heq, hle, hsum⟩
          obtain rfl := eq_nil_of_append heq (by omega)
          obtain ⟨rfl, -⟩ := List.cons.inj heq
          have hlt := length_lt_of_carries hb
          rw [bytes, List.flatMap_nil, List.length_nil] at hsum
          omega
        rw [splits_of_long h hsize hpos hlong, and_iff_left ⟨hstuck, hwrap⟩]
        refine ⟨fun hfits _ _ _ _ => hfits, fun hfits => hfits b rest rfl hlong⟩
      · rw [splits_of_short h hsize (not_lt.mp hlong), iff_and_self]
        intro _ b' rest' heq hlong'
        obtain ⟨rfl, -⟩ := List.cons.inj heq
        exact absurd hlong' hlong

end Size

/-- What the operations should do with a multi-buffer, some bytes, a slice of `n` bytes and a size. -/
structure Conserves (mb : RawMulti) (src : Bytes) (n size : Nat) : Prop where
  merge : ∃ mb', mergeBytes mb src = .ok mb' ∧ bytes mb' = bytes mb ++ src
  splitBytes : ∃ left copied, splitBytes mb n = .ok (left, copied) ∧ copied ++ bytes left = bytes mb
  splitFirst : bytes ((splitFirst mb).2.toList ++ (splitFirst mb).1) = bytes mb
  splitSize : Splits mb size
  compact : ∃ mb', compact mb = .ok mb' ∧ bytes mb' = bytes mb

/-- **When content is conserved.** For all buffers and arguments, the operations return what they should
exactly if no buffer but the first one is empty for `Compact`, and for `SplitSize` a part of the first buffer
has room in one from the pool, no empty buffers stand before one that is longer than the part, and the
buffers that fit and the next one together are shorter than an `int32`. -/
theorem conserves_iff (mb : RawMulti) (h : Proper mb) (src : Bytes) (n size : Nat) (hpos : 0 < size)
    (hsize : size < 2 ^ 31) :
    Conserves mb src n size ↔
      (∀ b ∈ mb.tail, b.content ≠ []) ∧ PartFits mb size ∧ ¬Stuck mb size ∧ ¬Wraps mb size 0 := by
  rw [← compact_iff h, ← splits_iff h hsize hpos]
  refine ⟨fun hall => ⟨hall.compact, hall.splitSize⟩, fun hboth => ⟨?_, ?_, ?_, hboth.2, hboth.1⟩⟩
  · obtain ⟨mb', hmerge, -, hbytes⟩ := mergeBytes_spec h src
    exact ⟨mb', hmerge, hbytes⟩
  · obtain ⟨left, hsplit, -, hbytes⟩ := splitBytes_spec h n
    exact ⟨left, _, hsplit, by rw [hbytes, List.take_append_drop]⟩
  · cases mb with
    | nil => rfl
    | cons b mb => rfl

theorem proper_fromBytes {b : Bytes} (hb : b.length < 2 ^ 31) : Proper [fromBytes b] :=
  proper_singleton ⟨(sound_fromBytes hb).1, hb, rfl⟩

/-- Two buffers, and parts of two bytes. -/
theorem conserves_two : Conserves [fromBytes [1, 2], fromBytes [3]] [4] 2 2 := by
  have hproper : Proper ([fromBytes [1, 2]] ++ [fromBytes [3]]) :=
    proper_append.mpr ⟨proper_fromBytes (by decide), proper_fromBytes (by decide)⟩
  refine (conserves_iff _ hproper [4] 2 2 (by decide) (by decide)).mpr
    ⟨List.forall_mem_singleton.mpr (by decide +kernel), fun _ _ _ _ => by decide, ?_, ?_⟩
  · rintro ⟨front, b, rest, heq, hne, hnil, -⟩
    have hshort : (bytes front).length < (fromBytes [1, 2]).content.length := by
      rw [hnil]
      decide +kernel
    exact hne (eq_nil_of_append heq hshort)
  · rintro ⟨front, b, rest, heq, -, hsum⟩
    have hall : (bytes (front ++ b :: rest)).length = 3 := by
      rw [← heq]
      decide +kernel
    rw [bytes_append, bytes_cons, List.length_append, List.length_append] at hall
    omega

/-- An empty second buffer, and an empty buffer before one of two bytes. -/
theorem compact_empty_second :
    compact [fromBytes [1], fromBytes []] = .error .panicked ∧
      splitSize [fromBytes [], fromBytes [1, 2]] 1 = .ok ([fromBytes [1, 2]], [fromBytes []]) := by
  decide +kernel

end RawMulti

end V2RootCore.Buf
