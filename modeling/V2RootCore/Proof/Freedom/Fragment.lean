import V2RootCore.Conf.Fragment
import V2RootCore.Proof.Crypto.Rand
import V2RootCore.Proof.Go.Io

/-!
# When fragmentation keeps the stream

The lengths of the pieces are drawn between two signed numbers of which only zero is refused. If the smaller one is
negative, the first piece can end before it starts. If it is positive, each round of the loop gets closer to the end
of the data, and the pieces are the data. If every write is a single piece, no length matters.
-/

namespace V2RootCore.Freedom

open Go Crypto

/-- Bounds that were read as two numbers of 32 bits in order. -/
structure Ordered (min max : UInt64) : Prop where
  low : -2 ^ 31 ≤ min.toInt64.toInt
  le : min.toInt64.toInt ≤ max.toInt64.toInt
  high : max.toInt64.toInt < 2 ^ 31

namespace Ordered

theorem of_range (range : Conf.Int32Range) :
    Ordered (Conf.uint64OfInt32 range.lower) (Conf.uint64OfInt32 range.upper) := by
  have hvalue : ∀ x : Int32, (Conf.uint64OfInt32 x).toInt64.toInt = x.toInt := fun x => by
    rw [Conf.uint64OfInt32, Int64.toInt64_toUInt64, Int32.toInt_toInt64]
  constructor
  · rw [hvalue]
    exact Int32.le_toInt _
  · rw [hvalue, hvalue]
    exact Int32.le_iff_toInt_le.mp range.ordered
  · rw [hvalue]
    exact Int32.toInt_lt _

theorem zero : Ordered 0 0 := ⟨by decide, by decide, by decide⟩

variable {min max : UInt64}

theorem drawable (h : Ordered min max) : Drawable min.toInt64.toInt max.toInt64.toInt := by
  obtain ⟨hlow, hle, hhigh⟩ := h
  exact ⟨by omega, by omega, by omega⟩

theorem draw_spec (h : Ordered min max) (number : Nat) :
    ∃ n, Fragment.draw min max number = .ok n ∧ min.toInt64.toInt ≤ n ∧
      n ≤ largestBetween min.toInt64.toInt max.toInt64.toInt := by
  obtain ⟨n, hn, hlow, hhigh⟩ := randBetween_spec h.drawable number
  rw [min_eq_left h.le] at hlow
  exact ⟨n, hn, hlow, hhigh⟩

theorem exists_draw (h : Ordered min max) {n : Int} (hlow : min.toInt64.toInt ≤ n)
    (hhigh : n ≤ largestBetween min.toInt64.toInt max.toInt64.toInt) :
    ∃ number, Fragment.draw min max number = .ok n :=
  ⟨_, randBetween_offset h.drawable ((min_eq_left h.le).trans_le hlow) hhigh⟩

end Ordered

namespace Fragment

/-- What `Build` guarantees. -/
structure Built (f : Fragment) : Prop where
  length : Ordered f.lengthMin f.lengthMax
  length_ne : f.lengthMin.toInt64.toInt ≠ 0
  interval : Ordered f.intervalMin f.intervalMax
  maxSplit : Ordered f.maxSplitMin f.maxSplitMax

theorem built_of_build {config : Conf.FragmentConfig} {f : Fragment} (hbuild : config.build = .ok f) : f.Built := by
  unfold Conf.FragmentConfig.build at hbuild
  obtain ⟨length, -, hbuild⟩ := bind_eq_ok.mp hbuild
  obtain ⟨interval, -, hbuild⟩ := bind_eq_ok.mp hbuild
  obtain ⟨maxSplit, -, hbuild⟩ := bind_eq_ok.mp hbuild
  obtain ⟨⟨packetsFrom, packetsTo⟩, -, hbuild⟩ := bind_eq_ok.mp hbuild
  cases length with
  | none => cases hbuild
  | some length =>
      obtain ⟨hne, hbuild⟩ := ite_error_eq_ok.mp hbuild
      cases interval with
      | none => cases hbuild
      | some interval =>
          obtain rfl := Except.ok.inj hbuild
          refine ⟨.of_range length, ?_, .of_range interval, ?_⟩
          · intro hzero
            have hvalue : (Conf.uint64OfInt32 length.lower).toInt64 = 0 := Int64.toInt_inj.mp hzero
            rw [Conf.uint64OfInt32, Int64.toInt64_toUInt64] at hvalue
            exact hne (congrArg Int64.toUInt64 hvalue)
          · cases maxSplit with
            | none => exact .zero
            | some maxSplit => exact .of_range maxSplit

/-- Whatever is drawn, there is one piece. -/
def Single (f : Fragment) : Prop := f.maxSplitMin.toInt64.toInt = 1 ∧ f.maxSplitMax.toInt64.toInt ≤ 2

theorem Single.draw {f : Fragment} (h : f.Single) (hbuilt : f.Built) (number : Nat) :
    draw f.maxSplitMin f.maxSplitMax number = .ok 1 := by
  obtain ⟨n, hn, hlow, hhigh⟩ := hbuilt.maxSplit.draw_spec number
  obtain ⟨hmin, hmax⟩ := h
  have hle := hbuilt.maxSplit.le
  unfold largestBetween at hhigh
  have hone : n = 1 := by split_ifs at hhigh <;> omega
  rw [hn, hone]

theorem exists_draw_of_not_single {f : Fragment} (h : ¬f.Single) (hbuilt : f.Built) :
    ∃ number n, draw f.maxSplitMin f.maxSplitMax number = .ok n ∧ n ≠ 1 := by
  have hle := hbuilt.maxSplit.le
  by_cases hmin : f.maxSplitMin.toInt64.toInt = 1
  · have hmax : 2 < f.maxSplitMax.toInt64.toInt := not_le.mp fun hmax => h ⟨hmin, hmax⟩
    obtain ⟨number, hnumber⟩ := hbuilt.maxSplit.exists_draw (n := 2) (by omega) (by
      unfold largestBetween
      split_ifs <;> omega)
    exact ⟨number, 2, hnumber, by decide⟩
  · obtain ⟨number, hnumber⟩ := hbuilt.maxSplit.exists_draw le_rfl
      ((min_eq_left hle).symm.trans_le (min_le_largestBetween _ _))
    exact ⟨number, _, hnumber, hmin⟩

section Pieces

variable {f : Fragment} {drawn : FragmentDraws} {maxSplit : Int} {sleeps : Bool} {data : Bytes}

theorem pieces_succ (hbuilt : f.Built) {fuel splitNum : Nat} {start n stop : Int}
    (hn : draw f.lengthMin f.lengthMax (drawn.length splitNum) = .ok n)
    (hstop : pieceEnd data maxSplit (splitNum + 1) (start + n) = stop) :
    f.pieces drawn maxSplit sleeps data (fuel + 1) start splitNum = (do
      let piece ← slice data start stop
      if stop = data.length then .ok [piece]
      else do
        let rest ← f.pieces drawn maxSplit sleeps data fuel stop (splitNum + 1)
        .ok (piece :: rest)) := by
  obtain ⟨time, htime⟩ : ∃ time, f.sleep sleeps (drawn.interval splitNum) = .ok time := by
    unfold sleep
    split
    · obtain ⟨time, htime, -⟩ := hbuilt.interval.draw_spec (drawn.interval splitNum)
      exact ⟨time, htime⟩
    · exact ⟨0, rfl⟩
  rw [pieces, hn, ok_bind, htime, hstop]
  rfl

/-- The loop comes to the end of the data. -/
theorem exists_pieces (hbuilt : f.Built) (hforward : 0 < f.lengthMin.toInt64.toInt ∨ maxSplit = 1)
    {fuel splitNum : Nat} {start : Int} (hlow : 0 ≤ start) (hhigh : start ≤ data.length)
    (hfuel : data.length - start < fuel) :
    ∃ out, f.pieces drawn maxSplit sleeps data fuel start splitNum = .ok out := by
  induction fuel generalizing start splitNum with
  | zero => omega
  | succ fuel ih =>
      obtain ⟨n, hn, hmin, -⟩ := hbuilt.length.draw_spec (drawn.length splitNum)
      obtain ⟨stop, hstop, hle, hend, hgrows⟩ : ∃ stop,
          pieceEnd data maxSplit (splitNum + 1) (start + n) = stop ∧ start ≤ stop ∧ stop ≤ data.length ∧
            (stop ≠ data.length → start < stop) := by
        unfold pieceEnd
        split_ifs with hlast
        · exact ⟨data.length, rfl, hhigh, le_rfl, fun hne => absurd rfl hne⟩
        · refine ⟨start + n, rfl, ?_, ?_, ?_⟩ <;> omega
      rw [pieces_succ hbuilt hn hstop, slice, if_pos ⟨hlow, hle, hend⟩, ok_bind]
      by_cases hfinal : stop = data.length
      · rw [if_pos hfinal]
        exact ⟨_, rfl⟩
      · have hgrown := hgrows hfinal
        obtain ⟨rest, hrest⟩ := @ih (splitNum + 1) stop (hlow.trans hle) hend (by omega)
        rw [if_neg hfinal, hrest]
        exact ⟨_, rfl⟩

/-- However the loop ends, the pieces are what there was to cut. -/
theorem flatten_of_pieces (hbuilt : f.Built) {fuel splitNum : Nat} {start : Int} {out : List Bytes}
    (hout : f.pieces drawn maxSplit sleeps data fuel start splitNum = .ok out) :
    out ≠ [] ∧ out.flatten = data.drop start.toNat := by
  induction fuel generalizing start splitNum out with
  | zero => cases hout
  | succ fuel ih =>
      obtain ⟨n, hn, -⟩ := hbuilt.length.draw_spec (drawn.length splitNum)
      obtain ⟨stop, hstop⟩ : ∃ stop, pieceEnd data maxSplit (splitNum + 1) (start + n) = stop := ⟨_, rfl⟩
      rw [pieces_succ hbuilt hn hstop] at hout
      obtain ⟨piece, hpiece, hout⟩ := bind_eq_ok.mp hout
      obtain ⟨hlow, hle, hhigh⟩ := slice_eq_ok hpiece
      rw [slice, if_pos ⟨hlow, hle, hhigh⟩] at hpiece
      have hsplit : piece ++ data.drop stop.toNat = data.drop start.toNat := by
        rw [← Except.ok.inj hpiece, List.drop_take, ← Nat.add_sub_cancel' (Int.toNat_le_toNat hle),
          ← List.drop_drop, Nat.add_sub_cancel_left]
        exact List.take_append_drop _ _
      split_ifs at hout with hfinal
      · obtain rfl := Except.ok.inj hout
        refine ⟨List.cons_ne_nil _ _, ?_⟩
        rw [← hsplit, hfinal, Int.toNat_natCast, List.drop_length, List.append_nil]
        exact List.append_nil _
      · obtain ⟨rest, hrest, hout⟩ := bind_eq_ok.mp hout
        obtain rfl := Except.ok.inj hout
        refine ⟨List.cons_ne_nil _ _, ?_⟩
        rw [List.flatten_cons, (ih hrest).2, hsplit]

theorem pieces_eq_single (hbuilt : f.Built) {fuel : Nat} {n : Int}
    (hn : draw f.lengthMin f.lengthMax (drawn.length 0) = .ok n) (hend : pieceEnd data maxSplit 1 n = data.length) :
    f.pieces drawn maxSplit sleeps data (fuel + 1) 0 0 = .ok [data] := by
  have hslice : slice data 0 data.length = .ok data := by
    rw [slice, if_pos ⟨le_rfl, by omega, le_rfl⟩]
    simp
  have hstop : pieceEnd data maxSplit ((0 : Nat) + 1) (0 + n) = data.length := by simpa using hend
  rw [pieces_succ hbuilt hn hstop, hslice, ok_bind, if_pos rfl]

/-- If the first length is not enough, then there is more than one piece. -/
theorem two_le_length_of_pieces (hbuilt : f.Built) (hsplit : maxSplit ≠ 1) {fuel : Nat} {n : Int} {out : List Bytes}
    (hn : draw f.lengthMin f.lengthMax (drawn.length 0) = .ok n)
    (hout : f.pieces drawn maxSplit sleeps data fuel 0 0 = .ok out) :
    0 ≤ n ∧ (n < data.length → 2 ≤ out.length) := by
  by_cases hlt : n < data.length
  · cases fuel with
    | zero => cases hout
    | succ fuel =>
        have hend : pieceEnd data maxSplit ((0 : Nat) + 1) (0 + n) = n := by
          rw [pieceEnd, if_neg (by omega), zero_add]
        rw [pieces_succ hbuilt hn hend] at hout
        obtain ⟨piece, hpiece, hout⟩ := bind_eq_ok.mp hout
        rw [if_neg hlt.ne] at hout
        obtain ⟨rest, hrest, hout⟩ := bind_eq_ok.mp hout
        obtain rfl := Except.ok.inj hout
        have hpositive := List.length_pos_of_ne_nil (flatten_of_pieces hbuilt hrest).1
        rw [List.length_cons]
        exact ⟨(slice_eq_ok hpiece).2.1, fun _ => by omega⟩
  · exact ⟨by omega, fun h => absurd h hlt⟩

end Pieces

end Fragment

section Records

variable {b : Bytes}

/-- The bytes are more than the header of a record and start with a complete handshake record. -/
def StartsHandshake (b : Bytes) : Prop := 5 < b.length ∧ b.head? = some 22 ∧ recordLen b ≤ b.length

theorem length_payload (h : StartsHandshake b) : (payload b).length = (uint16 (b.drop 3)).toNat := by
  have hle := h.2.2
  unfold payload
  unfold recordLen at *
  rw [List.length_drop, List.length_take]
  omega

theorem flatten_helloWrites (f : Fragment) (b : Bytes) (pieces : List Bytes) :
    (helloWrites f b pieces).flatten = (pieces.map (record b)).flatten ++ b.drop (recordLen b) := by
  unfold helloWrites
  rw [List.flatten_append]
  congr 1
  · split_ifs <;> simp
  · split_ifs with hrest
    · exact List.append_nil _
    · exact (List.drop_of_length_le (not_lt.mp hrest)).symm

theorem length_flatten_records (hb : 3 ≤ b.length) (pieces : List Bytes) :
    (pieces.map (record b)).flatten.length = 5 * pieces.length + pieces.flatten.length := by
  induction pieces with
  | nil => rfl
  | cons piece pieces ih =>
      have hrecord : (record b piece).length = 5 + piece.length := by
        rw [record, List.length_append, List.length_append, List.length_take_of_le hb]
        rfl
      rw [List.map_cons, List.flatten_cons, List.length_append, ih, hrecord, List.flatten_cons, List.length_append,
        List.length_cons]
      omega

/-- A record that is one piece is the record. -/
theorem record_payload_append (h : StartsHandshake b) : record b (payload b) ++ b.drop (recordLen b) = b := by
  have hlength := length_payload h
  obtain ⟨hlong, -, hle⟩ := h
  match b with
  | type :: major :: minor :: high :: low :: rest =>
      have htake : payload (type :: major :: minor :: high :: low :: rest) =
          rest.take (uint16 (high :: low :: rest)).toNat := by
        rw [payload, recordLen, Nat.add_comm]
        rfl
      have hdrop : (type :: major :: minor :: high :: low :: rest).drop
          (recordLen (type :: major :: minor :: high :: low :: rest)) =
            rest.drop (uint16 (high :: low :: rest)).toNat := by
        rw [recordLen, Nat.add_comm]
        rfl
      rw [record, hlength, hdrop, htake, UInt16.ofNat_toNat]
      exact congrArg₂ (fun size tail => [type, major, minor] ++ size ++ tail) (putUint16_uint16 high low rest)
        (List.take_append_drop _ rest)

end Records

instance (b : Bytes) : Decidable (StartsHandshake b) := inferInstanceAs (Decidable (_ ∧ _))

namespace FragmentWriter

/-- The writer after `n` writes. -/
def after (f : Fragment) (n : Nat) : FragmentWriter := next^[n] { fragment := f }

theorem fragment_after (f : Fragment) (n : Nat) : (after f n).fragment = f := by
  induction n with
  | zero => rfl
  | succ n ih =>
      rw [after, Function.iterate_succ_apply']
      exact ih

/-- The next write is cut to pieces. -/
def Fragments (w : FragmentWriter) (b : Bytes) : Prop :=
  if w.fragment.TlsHello then w.next.count = 1 ∧ StartsHandshake b
  else w.fragment.packetsFrom = 0 ∨ w.fragment.packetsFrom ≤ w.next.count ∧ w.next.count ≤ w.fragment.packetsTo

section Write

variable {w : FragmentWriter} {b : Bytes}

theorem write_of_not_fragments (h : ¬w.Fragments b) (fuel : Nat) (drawn : FragmentDraws) :
    w.write fuel b drawn = .ok (b.length, [b]) := by
  unfold Fragments at h
  unfold write
  by_cases htls : w.fragment.TlsHello
  · rw [if_pos htls] at h ⊢
    split_ifs with hfirst hshort
    · rfl
    · rfl
    · simp only [not_or, not_not, not_le, not_lt] at hfirst hshort
      exact absurd ⟨hfirst.1, hfirst.2.1, hfirst.2.2, hshort⟩ h
  · rw [if_neg htls] at h ⊢
    simp only [not_or, not_and_or, UInt64.not_le] at h
    rw [if_pos h]

theorem write_of_tlsHello (htls : w.fragment.TlsHello) (h : w.Fragments b) (fuel : Nat) (drawn : FragmentDraws) :
    w.write fuel b drawn = (do
      let maxSplit ← Fragment.draw w.fragment.maxSplitMin w.fragment.maxSplitMax drawn.maxSplit
      let pieces ← w.fragment.pieces drawn maxSplit (w.fragment.intervalMax ≠ 0) (payload b) fuel 0 0
      .ok (b.length, helloWrites w.fragment b pieces)) := by
  unfold Fragments at h
  rw [if_pos htls] at h
  obtain ⟨hcount, hlong, hhead, hle⟩ := h
  unfold write
  rw [if_pos htls, if_neg (by simp [hcount, hhead, hlong]), if_neg (not_lt.mpr hle)]

theorem write_of_not_tlsHello (htls : ¬w.fragment.TlsHello) (h : w.Fragments b) (fuel : Nat)
    (drawn : FragmentDraws) : w.write fuel b drawn = (do
      let maxSplit ← Fragment.draw w.fragment.maxSplitMin w.fragment.maxSplitMax drawn.maxSplit
      let pieces ← w.fragment.pieces drawn maxSplit true b fuel 0 0
      .ok (pieces.flatten.length, pieces)) := by
  unfold Fragments at h
  rw [if_neg htls] at h
  have hinside : ¬(w.fragment.packetsFrom ≠ 0 ∧
      (w.next.count < w.fragment.packetsFrom ∨ w.next.count > w.fragment.packetsTo)) := by
    rintro ⟨hne, houtside⟩
    obtain hzero | ⟨hlow, hhigh⟩ := h
    · exact hne hzero
    · exact houtside.elim (UInt64.not_lt.mpr hlow) (UInt64.not_lt.mpr hhigh)
  unfold write
  rw [if_neg htls, if_neg hinside]

end Write

/-- What the writes below bring for the write after `n` others: the bytes, or records for the one that a first write
starts with. -/
def Delivers (f : Fragment) (n : Nat) (b : Bytes) (out : List Bytes) : Prop :=
  if f.TlsHello ∧ n = 0 ∧ StartsHandshake b then
    ∃ payloads : List Bytes, payloads ≠ [] ∧ (∀ p ∈ payloads, p.length < 2 ^ 16) ∧ payloads.flatten = payload b ∧
      out.flatten = (payloads.map (record b)).flatten ++ b.drop (recordLen b)
  else out.flatten = b

/-- Whatever is drawn, the write after `n` others returns the length and keeps the bytes. -/
def Keeps (f : Fragment) (n : Nat) (b : Bytes) : Prop :=
  ∀ drawn, ∃ fuel out, (after f n).write fuel b drawn = .ok (b.length, out) ∧ Delivers f n b out

/-- A single piece is made, or the lengths are positive. The count starts again after `2 ^ 64` writes, and a
record that is found then has to be one piece as well. -/
def Advances (f : Fragment) (n : Nat) (b : Bytes) : Prop :=
  f.Single ∨ 0 < f.lengthMin.toInt64.toInt ∧
    (f.TlsHello → n ≠ 0 → ((payload b).length : Int) ≤ f.lengthMin.toInt64.toInt)

section Keeps

variable {f : Fragment} {n : Nat} {b : Bytes}

theorem keeps_of_not_fragments (h : ¬(after f n).Fragments b) : Keeps f n b := by
  intro drawn
  refine ⟨0, [b], write_of_not_fragments h 0 drawn, ?_⟩
  unfold Delivers
  split_ifs with hfirst
  · obtain ⟨htls, rfl, hstarts⟩ := hfirst
    refine absurd ?_ h
    unfold Fragments
    rw [if_pos (by rwa [fragment_after])]
    exact ⟨rfl, hstarts⟩
  · exact List.append_nil _

theorem starts_of_fragments (htls : f.TlsHello) (h : (after f n).Fragments b) : StartsHandshake b := by
  unfold Fragments at h
  rw [if_pos (by rwa [fragment_after])] at h
  exact h.2

theorem keeps_of_advances (hbuilt : f.Built) (h : (after f n).Fragments b) (hadvances : Advances f n b) :
    Keeps f n b := by
  intro drawn
  obtain ⟨maxSplit, hmaxSplit, -⟩ := hbuilt.maxSplit.draw_spec drawn.maxSplit
  have hone : f.Single → maxSplit = 1 := fun hsingle =>
    Except.ok.inj (hmaxSplit.symm.trans (hsingle.draw hbuilt drawn.maxSplit))
  have hforward : 0 < f.lengthMin.toInt64.toInt ∨ maxSplit = 1 := hadvances.symm.imp And.left hone
  have hfragment := fragment_after f n
  by_cases htls : f.TlsHello
  · have hstarts := starts_of_fragments htls h
    obtain ⟨pieces, hpieces⟩ : ∃ pieces, f.pieces drawn maxSplit (f.intervalMax ≠ 0) (payload b)
        ((payload b).length + 1) 0 0 = .ok pieces := f.exists_pieces hbuilt hforward le_rfl (by omega) (by omega)
    obtain ⟨hne, hdrop⟩ := f.flatten_of_pieces hbuilt hpieces
    have hflatten : pieces.flatten = payload b := hdrop
    have hwrite : (after f n).write ((payload b).length + 1) b drawn = .ok (b.length, helloWrites f b pieces) := by
      rw [write_of_tlsHello (hfragment.symm ▸ htls) h, hfragment, hmaxSplit, ok_bind, hpieces]
      rfl
    refine ⟨_, _, hwrite, ?_⟩
    unfold Delivers
    split_ifs with hfirst
    · refine ⟨pieces, hne, fun p hp => ?_, hflatten, flatten_helloWrites f b pieces⟩
      have hle : p.length ≤ (payload b).length := hflatten ▸ (List.sublist_flatten_of_mem hp).length_le
      exact hle.trans_lt ((length_payload hstarts).trans_lt (UInt16.toNat_lt _))
    · -- The count has come to one again, and there is one piece.
      have hlater : n ≠ 0 := fun hzero => hfirst ⟨htls, hzero, hstarts⟩
      obtain ⟨length, hlength, hmin, -⟩ := hbuilt.length.draw_spec (drawn.length 0)
      have hend : Fragment.pieceEnd (payload b) maxSplit 1 length = (payload b).length := by
        unfold Fragment.pieceEnd
        obtain hsingle | ⟨-, hlong⟩ := hadvances
        · rw [if_pos (.inr (by rw [hone hsingle]; decide))]
        · have hle := hlong htls hlater
          split_ifs <;> omega
      obtain rfl : [payload b] = pieces :=
        Except.ok.inj ((f.pieces_eq_single hbuilt hlength hend).symm.trans hpieces)
      rw [flatten_helloWrites]
      simpa using record_payload_append hstarts
  · obtain ⟨pieces, hpieces⟩ : ∃ pieces, f.pieces drawn maxSplit true b (b.length + 1) 0 0 = .ok pieces :=
      f.exists_pieces hbuilt hforward le_rfl (by omega) (by omega)
    have hflatten : pieces.flatten = b := (f.flatten_of_pieces hbuilt hpieces).2
    have hwrite : (after f n).write (b.length + 1) b drawn = .ok (b.length, pieces) := by
      rw [write_of_not_tlsHello (hfragment.symm ▸ htls) h, hfragment, hmaxSplit, ok_bind, hpieces,
        ok_bind, hflatten]
    refine ⟨_, _, hwrite, ?_⟩
    rw [Delivers, if_neg fun hfirst => htls hfirst.1]
    exact hflatten

theorem advances_of_keeps (hbuilt : f.Built) (h : (after f n).Fragments b) (hkeeps : Keeps f n b) :
    Advances f n b := by
  by_cases hsingle : f.Single
  · exact .inl hsingle
  · obtain ⟨number, maxSplit, hmaxSplit, hsplit⟩ := f.exists_draw_of_not_single hsingle hbuilt
    obtain ⟨shortest, hshortest⟩ := hbuilt.length.exists_draw le_rfl
      ((min_eq_left hbuilt.length.le).symm.trans_le (min_le_largestBetween _ _))
    obtain ⟨drawn, hmaxSplit, hshortest⟩ : ∃ drawn : FragmentDraws,
        Fragment.draw f.maxSplitMin f.maxSplitMax drawn.maxSplit = .ok maxSplit ∧
          Fragment.draw f.lengthMin f.lengthMax (drawn.length 0) = .ok f.lengthMin.toInt64.toInt :=
      ⟨⟨number, fun _ => shortest, fun _ => 0⟩, hmaxSplit, hshortest⟩
    obtain ⟨fuel, out, hwrite, hdelivers⟩ := hkeeps drawn
    have hpositive : 0 ≤ f.lengthMin.toInt64.toInt → 0 < f.lengthMin.toInt64.toInt := fun hnonneg =>
      lt_of_le_of_ne hnonneg hbuilt.length_ne.symm
    have hfragment := fragment_after f n
    by_cases htls : f.TlsHello
    · have hstarts := starts_of_fragments htls h
      rw [write_of_tlsHello (hfragment.symm ▸ htls) h, hfragment, hmaxSplit, ok_bind] at hwrite
      obtain ⟨pieces, hpieces, hout⟩ := bind_eq_ok.mp hwrite
      obtain ⟨hnonneg, hmore⟩ := f.two_le_length_of_pieces hbuilt hsplit hshortest hpieces
      refine .inr ⟨hpositive hnonneg, fun _ hlater => not_lt.mp fun hshort => ?_⟩
      rw [Delivers, if_neg fun hfirst => hlater hfirst.2.1, ← (Prod.mk.inj (Except.ok.inj hout)).2,
        flatten_helloWrites] at hdelivers
      have hlengths := congrArg List.length hdelivers
      have hpayload := length_payload hstarts
      obtain ⟨hlong, -, hle⟩ := hstarts
      have htwo := hmore hshort
      rw [List.length_append, length_flatten_records (by omega), (f.flatten_of_pieces hbuilt hpieces).2,
        List.length_drop, List.length_drop] at hlengths
      unfold recordLen at *
      omega
    · rw [write_of_not_tlsHello (hfragment.symm ▸ htls) h, hfragment, hmaxSplit, ok_bind] at hwrite
      obtain ⟨pieces, hpieces, -⟩ := bind_eq_ok.mp hwrite
      obtain ⟨hnonneg, -⟩ := f.two_le_length_of_pieces hbuilt hsplit hshortest hpieces
      exact .inr ⟨hpositive hnonneg, fun h => absurd h htls⟩

end Keeps

/-- Every write of a stream is kept. -/
def KeepsStream (f : Fragment) (writes : List Bytes) : Prop := ∀ n b, writes[n]? = some b → Keeps f n b

/-- **An accepted fragment keeps a stream exactly if each write that is cut to pieces advances.** -/
theorem keepsStream_iff {config : Conf.FragmentConfig} {f : Fragment} (hbuild : config.build = .ok f)
    (writes : List Bytes) :
    KeepsStream f writes ↔ ∀ n b, writes[n]? = some b → (after f n).Fragments b → Advances f n b := by
  have hbuilt := Fragment.built_of_build hbuild
  refine forall_congr' fun n => forall_congr' fun b => imp_congr_right fun _ => ⟨?_, ?_⟩
  · exact fun hkeeps h => advances_of_keeps hbuilt h hkeeps
  · intro hadvances
    by_cases h : (after f n).Fragments b
    · exact keeps_of_advances hbuilt h (hadvances h)
    · exact keeps_of_not_fragments h

/-- The first three writes are cut to pieces of a hundred bytes and more. -/
theorem keepsStream_range :
    Conf.FragmentConfig.build
      { packets := ascii "1-3", length := some (.string (ascii "100-200"))
        interval := some (.string (ascii "10-20")) } =
        .ok { packetsFrom := 1, packetsTo := 3, lengthMin := 100, lengthMax := 200, intervalMin := 10
              intervalMax := 20 } ∧
      KeepsStream { packetsFrom := 1, packetsTo := 3, lengthMin := 100, lengthMax := 200, intervalMin := 10
                    intervalMax := 20 } [ascii "first", ascii "second"] := by
  refine (and_iff_left_of_imp fun hbuild => ?_).mpr rfl
  refine (keepsStream_iff hbuild _).mpr fun _ _ _ _ => .inr ⟨by decide, fun htls => ?_⟩
  exact absurd htls (by decide)

/-- A length from -5 to 5 is accepted, with -5 as a `uint64`, and the first write panics. -/
theorem not_keepsStream_negative :
    Conf.FragmentConfig.build
      { packets := [], length := some (.string (ascii "-5-5")), interval := some (.integer 0) } =
        .ok { packetsFrom := 0, packetsTo := 0, lengthMin := 18446744073709551611, lengthMax := 5
              intervalMin := 0, intervalMax := 0 } ∧
      ¬ KeepsStream { packetsFrom := 0, packetsTo := 0, lengthMin := 18446744073709551611, lengthMax := 5
                      intervalMin := 0, intervalMax := 0 } [[1]] := by
  refine (and_iff_left_of_imp fun hbuild hkeeps => ?_).mpr rfl
  have hfragments : (after ⟨0, 0, 18446744073709551611, 5, 0, 0, 0, 0⟩ 0).Fragments [1] := by
    rw [Fragments, if_neg (by decide)]
    exact .inl rfl
  obtain ⟨hone, -⟩ | ⟨hpositive, -⟩ :=
    advances_of_keeps (Fragment.built_of_build hbuild) hfragments (hkeeps 0 [1] rfl)
  · exact absurd hone (by decide)
  · exact absurd hpositive (by decide)

end FragmentWriter

end V2RootCore.Freedom
