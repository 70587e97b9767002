import V2RootCore.Vision.Reader
import V2RootCore.Proof.Vision.Padding

/-!
# When the reader of Vision leaves the blocks

After every read the reader looks at the state of its link. Inside a header the state does not tell
whether the block has content or padding at all, as long as the bytes that were read of their lengths are
zero; where a read ends there, the reader takes the last block for finished.
-/

namespace V2RootCore.Vision

open Go LinkState

def Stays (s : LinkState) : Prop :=
  0 < s.remainingContent ∨ 0 < s.remainingPadding ∨ s.currentCommand = 0

/-- The bytes end in the header of the last block, behind its command, and all that they have of the
lengths in it is zero. -/
def CutInHeader (userUUID : Bytes) (blocks : List Block) (consumed : Bytes) : Prop :=
  ∃ front block j, blocks = front ++ [block] ∧ 1 ≤ j ∧ j ≤ 4 ∧
    consumed = userUUID ++ streamOf front ++ block.header.take j ∧
    ∀ x ∈ (block.header.take j).tail, x = 0

section Header

variable {last : UInt8} {blocks : List Block} {userUUID consumed rest out : Bytes} {s : LinkState}

theorem stays_header (hs : s.Ready) (block : Block) {j : Nat} (hj : j < 5) :
    Stays ((block.header.take j).foldl headerByte s) ↔
      j = 0 ∨ block.command = 0 ∨ ∃ x ∈ (block.header.take j).tail, x ≠ 0 := by
  have hzero : ∀ x : UInt8, x.toNat = 0 ↔ x = 0 := fun x => UInt8.toNat_inj (b := 0)
  have hcontent := not_lt.mpr hs.content
  have hpadding := not_lt.mpr hs.padding
  rw [Block.header]
  generalize UInt8.ofNat (block.content.length / 256) = h₁
  generalize UInt8.ofNat block.content.length = h₂
  generalize UInt8.ofNat (block.padding.length / 256) = h₃
  generalize UInt8.ofNat block.padding.length = h₄
  have hpos : ∀ x : UInt8, 0 < x.toNat ↔ x ≠ 0 := fun x => by rw [Ne, ← hzero, Nat.pos_iff_ne_zero]
  have hlengths : ∀ x : UInt8, 0 < 256 * (x.toNat : Int) ↔ x ≠ 0 := fun x => by
    rw [Ne, ← hzero]
    omega
  interval_cases j
  · simp [Stays, hs.current]
  · simp [Stays, headerByte, hs.command, hcontent, hpadding, hzero]
  · simp [Stays, headerByte, hs.command, hpadding, hzero, hlengths]
    exact or_comm
  · simp [Stays, headerByte, hs.command, hpadding, hzero, hpos]
    exact or_comm
  · simp [Stays, headerByte, hs.command, hzero, hpos, hlengths]
    rw [← or_assoc, or_comm, or_assoc]

theorem length_streamOf_lt {front later : List Block} {block block' : Block} {j : Nat}
    (hlater : block' :: later <:+ front ++ [block]) (hj : 1 ≤ j) :
    (later = [] ∧ block' = block) ∨
      (block.header.drop j ++ (block.content ++ block.padding)).length < (streamOf later).length := by
  have hheader : block.header.length = 5 := rfl
  obtain ⟨before, hbefore⟩ := hlater
  rcases List.eq_nil_or_concat' later with rfl | ⟨middle, block'', rfl⟩
  · have hlast := (List.append_inj' hbefore rfl).2
    exact .inl ⟨rfl, (List.cons.inj hlast).1⟩
  · rw [← List.cons_append, ← List.append_assoc] at hbefore
    obtain rfl := (List.cons.inj (List.append_inj' hbefore rfl).2).1
    refine .inr ?_
    simp only [streamOf, List.flatMap_append, List.flatMap_singleton, Block.bytes,
      List.length_append, List.length_drop, hheader]
    omega

theorem Expects.not_stays_iff (hexpects : Expects last blocks s rest out) (hlast : last ≠ 0)
    (hcomplete : Complete last blocks)
    (hconsumed : consumed ++ rest = userUUID ++ streamOf blocks) :
    ¬Stays s ↔ CutInHeader userUUID blocks consumed := by
  have hheader : ∀ block : Block, block.header.length = 5 := fun block => rfl
  have hstream : ∀ (front : List Block) (block : Block) (j : Nat),
      userUUID ++ streamOf (front ++ [block]) = userUUID ++ streamOf front ++ block.header.take j ++
        (block.header.drop j ++ (block.content ++ block.padding)) := by
    intro front block j
    rw [List.append_assoc (userUUID ++ _), ← List.append_assoc (block.header.take j),
      List.take_append_drop]
    simp [streamOf, Block.bytes]
  cases hexpects with
  | header s block later j hs hcomplete' hlater hj =>
      rw [stays_header hs block hj]
      constructor
      · intro hleaves
        push Not at hleaves
        obtain ⟨hpos, hcommand, hzero⟩ := hleaves
        obtain ⟨hcontinue, -⟩ | ⟨-, rfl⟩ := complete_cons hcomplete'
        · exact absurd hcontinue hcommand
        · obtain ⟨front, rfl⟩ := hlater
          refine ⟨front, block, j, rfl, by omega, by omega, ?_, hzero⟩
          rw [hstream front block j] at hconsumed
          exact List.append_cancel_right (by simpa [streamOf] using hconsumed)
      · rintro ⟨front, block', j', rfl, hpos, hle, rfl, hzero⟩
        rw [hstream front block' j'] at hconsumed
        have hrest := congrArg List.length (List.append_cancel_left hconsumed)
        obtain ⟨rfl, rfl⟩ | hlt := length_streamOf_lt hlater hpos
        · have hsame : j = j' := by
            simp [streamOf, hheader] at hrest
            omega
          subst hsame
          have hcommand : block.command = last := hcomplete'
          rintro (rfl | hcontinue | ⟨x, hx, hne⟩)
          · exact absurd hpos (by norm_num)
          · exact hlast (hcommand.symm.trans hcontinue)
          · exact hne (hzero x hx)
        · simp only [List.length_append] at hrest hlt
          omega
  | body s block later content padding hcomplete' hlater hcontent hpadding hne =>
      refine iff_of_false (not_not.mpr ?_) ?_
      · simp only [← List.length_pos_iff] at hne
        obtain hne | hne := hne
        · exact .inl (Int.natCast_pos.mpr hne)
        · exact .inr (.inl (Int.natCast_pos.mpr hne))
      · rintro ⟨front, block', j', rfl, hpos, hle, rfl, -⟩
        rw [hstream front block' j'] at hconsumed
        have hrest := congrArg List.length (List.append_cancel_left hconsumed)
        simp only [List.length_append, List.length_drop, hheader] at hrest
        obtain ⟨rfl, rfl⟩ | hlt := length_streamOf_lt hlater hpos
        · have hcontent' := hcontent.length_le
          have hpadding' := hpadding.length_le
          simp only [streamOf, List.flatMap_nil, List.length_nil] at hrest
          omega
        · simp only [List.length_append, List.length_drop, hheader] at hlt
          omega

theorem CutInHeader.length (h : CutInHeader userUUID blocks consumed) :
    userUUID.length < consumed.length ∧ consumed.length < (userUUID ++ streamOf blocks).length := by
  obtain ⟨front, block, j, rfl, hpos, hle, rfl, -⟩ := h
  have hheader : block.header.length = 5 := rfl
  simp only [streamOf, List.flatMap_append, List.flatMap_singleton, Block.bytes, List.length_append,
    List.length_take, hheader]
  omega

theorem Expects.currentCommand_eq (hexpects : Expects last blocks s rest out) (hleaves : ¬Stays s) :
    s.currentCommand = last.toNat := by
  cases hexpects with
  | header s block later j hs hcomplete hlater hj =>
      rw [stays_header hs block hj, not_or, not_or] at hleaves
      obtain ⟨hpos, hcommand, -⟩ := hleaves
      have hcurrent : ((block.header.take j).foldl headerByte s).currentCommand =
          block.command.toNat := by
        rw [Block.header]
        interval_cases j <;> first | exact absurd rfl hpos | simp [headerByte, hs.command]
      obtain ⟨hcontinue, -⟩ | ⟨hlast, -⟩ := complete_cons hcomplete
      · exact absurd hcontinue hcommand
      · rw [hcurrent, hlast]
  | body s block later content padding hcomplete hlater hcontent hpadding hne =>
      refine absurd ?_ hleaves
      simp only [← List.length_pos_iff] at hne
      obtain hne | hne := hne
      · exact .inl (Int.natCast_pos.mpr hne)
      · exact .inr (.inl (Int.natCast_pos.mpr hne))

end Header

section Flags

variable {s : LinkState}

structure SameMode (s s' : LinkState) : Prop where
  within : s'.withinPaddingBuffers = s.withinPaddingBuffers
  direct : s'.directCopy = s.directCopy

theorem SameMode.trans {s₁ s₂ s₃ : LinkState} (h : SameMode s₁ s₂) (h' : SameMode s₂ s₃) :
    SameMode s₁ s₃ := ⟨h'.within.trans h.within, h'.direct.trans h.direct⟩

theorem sameMode_headerByte (data : UInt8) : SameMode s (s.headerByte data) := by
  rw [headerByte]
  constructor
  · dsimp only
    split <;> rfl
  · dsimp only
    split <;> rfl

theorem sameMode_round (data : UInt8) (b newbuffer : Bytes) :
    SameMode s (s.round data b newbuffer).2.1 := by
  rw [LinkState.round]
  split_ifs
  · exact sameMode_headerByte data
  · exact ⟨rfl, rfl⟩
  · exact ⟨rfl, rfl⟩

theorem sameMode_unpad (fuel : Nat) (b newbuffer : Bytes) :
    SameMode s (unpad fuel s b newbuffer).2 := by
  induction fuel generalizing s b newbuffer with
  | zero => exact ⟨rfl, rfl⟩
  | succ fuel ih =>
      cases b with
      | nil => exact ⟨rfl, rfl⟩
      | cons data b =>
          rw [unpad]
          have hround := @sameMode_round s data b newbuffer
          generalize s.round data b newbuffer = result at hround ⊢
          dsimp only
          have hreset : SameMode result.2.1 { result.2.1 with remainingCommand := 5 } := ⟨rfl, rfl⟩
          split_ifs
          · exact (hround.trans hreset).trans (ih _ _)
          · exact ⟨hround.within, hround.direct⟩
          · exact hround.trans (ih _ _)

theorem sameMode_xtlsUnpadding (userUUID b : Bytes) :
    SameMode s (xtlsUnpadding userUUID s b).2 := by
  rw [xtlsUnpadding]
  split_ifs
  · have hsame := @sameMode_unpad { s with remainingCommand := 5 } b.length (b.drop 16) []
    exact ⟨hsame.within, hsame.direct⟩
  · exact ⟨rfl, rfl⟩
  · exact sameMode_unpad _ _ _

theorem sameMode_unpadBuffers (userUUID : Bytes) (buffers : List Bytes) :
    SameMode s (unpadBuffers userUUID s buffers).2 := by
  induction buffers generalizing s with
  | nil => exact ⟨rfl, rfl⟩
  | cons b buffers ih => exact (sameMode_xtlsUnpadding userUUID b).trans ih

theorem switch_of_stays (hstays : Stays s) : s.switch = { s with withinPaddingBuffers := true } :=
  if_pos hstays

theorem switch_of_leaves {last : UInt8} (hleaves : ¬Stays s)
    (hlast : last = commandPaddingEnd ∨ last = commandPaddingDirect)
    (hcommand : s.currentCommand = last.toNat) : s.switch.withinPaddingBuffers = false := by
  have hnot : ¬(0 < s.remainingContent ∨ 0 < s.remainingPadding ∨ s.currentCommand = 0) := hleaves
  rw [switch, if_neg hnot, hcommand]
  obtain rfl | rfl := hlast <;> rfl

end Flags

section Reads

variable {last : UInt8} {blocks : List Block} {userUUID b rest out : Bytes} {s : LinkState}
  {buffers : List Bytes}

inductive ReadOf (last : UInt8) (blocks : List Block) (bytes : Bytes) :
    Bytes → Bytes → List Bytes × LinkState → Prop where
  | inside (rest out : Bytes) (newbuffers : List Bytes) (s : LinkState)
      (hexpects : Expects last blocks s rest out) :
      ReadOf last blocks bytes (bytes ++ rest) (newbuffers.flatten ++ out) (newbuffers, s)
  | finished (rest out : Bytes) (newbuffers : List Bytes) (s : LinkState)
      (hrest : rest.length ≤ bytes.length) (hout : out <+: newbuffers.flatten) :
      ReadOf last blocks bytes rest out (newbuffers, s)

theorem readOf_cons (hcut : ∃ tail raw, (b :: buffers).flatten ++ tail = rest ++ raw)
    (hfirst : Unpadded last blocks [] b rest out (xtlsUnpadding userUUID s b))
    (hrest : ∀ s' rest' out', Expects last blocks s' rest' out' →
      (∃ tail raw, buffers.flatten ++ tail = rest' ++ raw) →
      ReadOf last blocks buffers.flatten rest' out' (unpadBuffers userUUID s' buffers)) :
    ReadOf last blocks (b :: buffers).flatten rest out (unpadBuffers userUUID s (b :: buffers)) := by
  obtain ⟨tail, raw, hcut⟩ := hcut
  rw [unpadBuffers]
  generalize xtlsUnpadding userUUID s b = result at hfirst ⊢
  cases hfirst with
  | inside _ rest' out₁ out₂ s' hexpects =>
      rw [List.flatten_cons, List.append_assoc, List.append_assoc] at hcut
      have hlater := hrest s' rest' out₂ hexpects ⟨tail, raw, List.append_cancel_left hcut⟩
      dsimp only
      generalize unpadBuffers userUUID s' buffers = result at hlater ⊢
      cases hlater with
      | inside rest'' out'' newbuffers s'' hexpects' =>
          rw [List.flatten_cons, ← List.append_assoc, ← List.append_assoc]
          exact .inside _ _ (out₁ :: newbuffers) s'' hexpects'
      | finished _ _ newbuffers s'' hlength hout =>
          refine .finished _ _ _ _ ?_ ?_
          · rw [List.flatten_cons, List.length_append, List.length_append]
            omega
          · exact (List.prefix_append_right_inj out₁).mpr hout
  | finished _ raw' _ s' hfinished =>
      refine .finished _ _ _ _ ?_ ?_
      · rw [List.flatten_cons, List.length_append, List.length_append]
        omega
      · rw [List.flatten_cons, List.nil_append, List.append_assoc]
        exact List.prefix_append _ _

theorem readOf_inside (hlast : last ≠ 0) (hexpects : Expects last blocks s rest out)
    (hcut : ∃ tail raw, buffers.flatten ++ tail = rest ++ raw)
    (hsize : ∀ b ∈ buffers, b.length ≤ Buf.size) :
    ReadOf last blocks buffers.flatten rest out (unpadBuffers userUUID s buffers) := by
  induction buffers generalizing s rest out with
  | nil => exact .inside rest out [] s hexpects
  | cons b buffers ih =>
      obtain ⟨hb, hbuffers⟩ := List.forall_mem_cons.mp hsize
      refine readOf_cons hcut (xtlsUnpadding_inside hlast hexpects ?_ hb) ?_
      · obtain ⟨tail, raw, hcut⟩ := hcut
        exact ⟨buffers.flatten ++ tail, raw, by simpa using hcut⟩
      · exact fun s' rest' out' hexpects' hcut' => ih hexpects' hcut' hbuffers

theorem readOf_first (hlast : last ≠ 0) (huuid : userUUID.length = 16)
    (hcomplete : Complete last blocks)
    (hcut : ∃ tail raw, (b :: buffers).flatten ++ tail = userUUID ++ streamOf blocks ++ raw)
    (hfirst : 21 ≤ b.length) (hsize : ∀ b' ∈ b :: buffers, b'.length ≤ Buf.size) :
    ReadOf last blocks (b :: buffers).flatten (userUUID ++ streamOf blocks) (contentOf blocks)
      (unpadBuffers userUUID {} (b :: buffers)) := by
  obtain ⟨hb, hbuffers⟩ := List.forall_mem_cons.mp hsize
  refine readOf_cons hcut (xtlsUnpadding_first hlast huuid hcomplete rfl rfl ?_ hfirst hb) ?_
  · obtain ⟨tail, raw, hcut⟩ := hcut
    exact ⟨buffers.flatten ++ tail, raw, by simpa using hcut⟩
  · exact fun s' rest' out' hexpects hcut' => readOf_inside hlast hexpects hcut' hbuffers

end Reads

section Filter

variable {memory : Nat → UInt8} {t : TrafficState}

structure SameLinks (t t' : TrafficState) : Prop where
  userUUID : t'.userUUID = t.userUUID
  inbound : t'.inbound = t.inbound
  outbound : t'.outbound = t.outbound

theorem SameLinks.trans {t₁ t₂ t₃ : TrafficState} (h : SameLinks t₁ t₂) (h' : SameLinks t₂ t₃) :
    SameLinks t₁ t₃ :=
  ⟨h'.userUUID.trans h.userUUID, h'.inbound.trans h.inbound, h'.outbound.trans h.outbound⟩

theorem SameLinks.link {t' : TrafficState} (h : SameLinks t t') (isUplink : Bool) :
    t'.link isUplink = t.link isUplink := by
  rw [TrafficState.link, TrafficState.link, h.inbound, h.outbound]

theorem sameLinks_filterHello (b : Bytes) : SameLinks t (t.filterHello memory b) := by
  rw [TrafficState.filterHello]
  dsimp only
  split_ifs <;> exact ⟨rfl, rfl, rfl⟩

theorem sameLinks_filterBuffer (b : Bytes) : SameLinks t (t.filterBuffer memory b).1 := by
  rw [TrafficState.filterBuffer]
  have hhello := @sameLinks_filterHello memory
    { t with numberOfPacketToFilter := t.numberOfPacketToFilter - 1 } b
  generalize TrafficState.filterHello memory
    { t with numberOfPacketToFilter := t.numberOfPacketToFilter - 1 } b = t' at hhello ⊢
  have hsame : SameLinks t t' := ⟨hhello.userUUID, hhello.inbound, hhello.outbound⟩
  dsimp only
  split_ifs <;> exact hsame.trans ⟨rfl, rfl, rfl⟩

theorem sameLinks_xtlsFilterTls (buffer : List Bytes) :
    SameLinks t (t.xtlsFilterTls memory buffer) := by
  induction buffer generalizing t with
  | nil => exact ⟨rfl, rfl, rfl⟩
  | cons b buffer ih =>
      have hbuffer := @sameLinks_filterBuffer memory t b
      rw [TrafficState.xtlsFilterTls]
      split
      · rename_i heq
        rw [heq] at hbuffer
        exact hbuffer.trans ih
      · rename_i heq
        rwa [heq] at hbuffer

theorem link_setLink (isUplink : Bool) (link : LinkState) :
    (t.setLink isUplink link).link isUplink = link := by
  cases isUplink <;> rfl

theorem userUUID_setLink (isUplink : Bool) (link : LinkState) :
    (t.setLink isUplink link).userUUID = t.userUUID := by
  cases isUplink <;> rfl

end Filter

namespace VisionReader

variable {memory : Nat → UInt8} {w : VisionReader}

theorem flatten_filter_ne_nil (buffers : List Bytes) :
    (buffers.filter (· ≠ [])).flatten = buffers.flatten := by
  induction buffers with
  | nil => rfl
  | cons b buffers ih =>
      by_cases hb : b = []
      · simp [hb, ← ih]
      · simp [hb, ← ih]

structure AfterRead (w : VisionReader) (read : List Bytes) (reader : List (List Bytes))
    (bytes : Bytes) (w' : VisionReader) : Prop where
  userUUID : w'.trafficState.userUUID = w.trafficState.userUUID
  link : w'.link = (unpadBuffers w.trafficState.userUUID w.link read).2.switch
  returned : (unpadBuffers w.trafficState.userUUID w.link read).1.flatten <+: bytes
  reader : w'.link.directCopy = false →
    bytes = (unpadBuffers w.trafficState.userUUID w.link read).1.flatten ∧ w'.reader = reader

theorem unpadding_within (buffer : List Bytes) (hwithin : w.link.withinPaddingBuffers = true) :
    w.unpadding buffer =
      ((unpadBuffers w.trafficState.userUUID w.link buffer).1.filter (· ≠ []),
        { w with
          trafficState := w.trafficState.setLink w.isUplink
            (unpadBuffers w.trafficState.userUUID w.link buffer).2.switch }) :=
  if_pos (.inl hwithin)

theorem filter_eq (memory : Nat → UInt8) (w : VisionReader) (buffer : List Bytes) :
    ∃ t, SameLinks w.trafficState t ∧ w.filter memory buffer = { w with trafficState := t } := by
  rw [filter]
  split_ifs
  · exact ⟨_, sameLinks_xtlsFilterTls buffer, rfl⟩
  · exact ⟨w.trafficState, ⟨rfl, rfl, rfl⟩, rfl⟩

theorem readMultiBuffer_within {read : List Bytes} {reader : List (List Bytes)}
    (hreader : w.reader = read :: reader) (hread : read.flatten ≠ [])
    (hwithin : w.link.withinPaddingBuffers = true) (hdirect : w.link.directCopy = false) :
    AfterRead w read reader ((w.readMultiBuffer memory).1.toOption.getD []).flatten
      (w.readMultiBuffer memory).2 := by
  have hnot : ¬(read.all (· = []) = true ∨
      ({ w with reader } : VisionReader).link.directCopy = true) := by
    rintro (hall | hcopy)
    · refine hread (List.flatten_eq_nil_iff.mpr fun b hb => ?_)
      simpa using List.all_eq_true.mp hall b hb
    · exact absurd (hdirect.symm.trans hcopy) (by simp)
  have hunpadding := @unpadding_within { w with reader } read hwithin
  rw [readMultiBuffer, hreader]
  dsimp only
  rw [if_neg hnot, hunpadding]
  dsimp only
  change AfterRead w read reader _ _
  have hlink : ({ w with reader } : VisionReader).link = w.link := rfl
  rw [hlink]
  have hflatten := flatten_filter_ne_nil (unpadBuffers w.trafficState.userUUID w.link read).1
  obtain ⟨t, hsame, hfilter⟩ := filter_eq memory
    { w with
      reader := reader
      trafficState := w.trafficState.setLink w.isUplink
        (unpadBuffers w.trafficState.userUUID w.link read).2.switch }
    ((unpadBuffers w.trafficState.userUUID w.link read).1.filter (· ≠ []))
  have huuid : t.userUUID = w.trafficState.userUUID :=
    hsame.userUUID.trans (userUUID_setLink _ _)
  have hswitch : t.link w.isUplink = (unpadBuffers w.trafficState.userUUID w.link read).2.switch :=
    (hsame.link _).trans (link_setLink _ _)
  rw [hfilter, direct]
  split_ifs with hcopy
  · refine ⟨huuid, hswitch, ?_, fun hnone => ?_⟩
    · change _ <+: (_ ++ readFrom w.input ++ readFrom w.rawInput).flatten
      rw [List.append_assoc, List.flatten_append, hflatten]
      exact List.prefix_append _ _
    · exact absurd (hcopy.symm.trans hnone) (by simp)
  · exact ⟨huuid, hswitch, hflatten ▸ List.prefix_rfl, fun _ => ⟨hflatten, rfl⟩⟩

end VisionReader

/-- Reads that return the blocks of a stream and what follows them. -/
structure Fragments (userUUID : Bytes) (blocks : List Block) (raw : Bytes)
    (reads : List (List Bytes)) : Prop where
  bytes : reads.flatten.flatten = userUUID ++ streamOf blocks ++ raw
  nonempty : ∀ read ∈ reads, read.flatten ≠ []
  size : ∀ read ∈ reads, ∀ b ∈ read, b.length ≤ 8192
  first : ∀ b, reads.head?.bind List.head? = some b → 21 ≤ b.length

/-- The bytes of the first reads. -/
def consumed (reads : List (List Bytes)) (n : Nat) : Bytes := (reads.take n).flatten.flatten

/-- Up to the end of the blocks, the reader unpads and returns content only; then all content has been
returned. -/
def ProperAfter (memory : Nat → UInt8) (w : VisionReader) (userUUID : Bytes) (blocks : List Block)
    (reads : List (List Bytes)) (n : Nat) : Prop :=
  if (consumed reads n).length < (userUUID ++ streamOf blocks).length then
    (w.readTimes memory n).2.link.withinPaddingBuffers = true ∧
      (w.readTimes memory n).2.link.directCopy = false ∧
      (w.readTimes memory n).1 <+: contentOf blocks
  else contentOf blocks <+: (w.readTimes memory n).1

section Run

variable {last : UInt8} {blocks : List Block} {userUUID raw : Bytes}
  {reads : List (List Bytes)} {n : Nat} {w : VisionReader} {bytes : Bytes}

theorem consumed_succ (hn : n < reads.length) :
    consumed reads (n + 1) = consumed reads n ++ (reads.get ⟨n, hn⟩).flatten := by
  rw [consumed, consumed, ← List.take_concat_get' reads n hn, List.flatten_append,
    List.flatten_append, List.flatten_singleton]
  rfl

theorem length_consumed_mono {m : Nat} (hm : m ≤ n) :
    (consumed reads m).length ≤ (consumed reads n).length :=
  List.take_prefix_take_left hm |>.flatten.flatten.length_le

structure Left (userUUID : Bytes) (blocks : List Block) (consumed bytes rest out : Bytes) : Prop where
  stream : consumed ++ rest = userUUID ++ streamOf blocks
  content : bytes ++ out = contentOf blocks

structure Inside (last : UInt8) (userUUID : Bytes) (blocks : List Block) (reads : List (List Bytes))
    (n : Nat) (bytes : Bytes) (w : VisionReader) : Prop where
  reader : w.reader = reads.drop n
  user : w.trafficState.userUUID = userUUID
  within : w.link.withinPaddingBuffers = true
  direct : w.link.directCopy = false
  state : (n = 0 ∧ w.link = {} ∧ bytes = []) ∨
    ∃ rest out, Expects last blocks w.link rest out ∧
      Left userUUID blocks (consumed reads n) bytes rest out

theorem Inside.returned (h : Inside last userUUID blocks reads n bytes w) :
    bytes <+: contentOf blocks := by
  obtain ⟨-, -, rfl⟩ | ⟨rest, out, -, hleft⟩ := h.state
  · exact List.nil_prefix
  · exact ⟨out, hleft.content⟩

variable (huuid : userUUID.length = 16) (hcomplete : Complete last blocks)
  (hreads : Fragments userUUID blocks raw reads)

include huuid hcomplete hreads

theorem Inside.readOf (h : Inside last userUUID blocks reads n bytes w) (hlast : last ≠ 0)
    (hn : n < reads.length) :
    ∃ rest out, Left userUUID blocks (consumed reads n) bytes rest out ∧
      ReadOf last blocks (reads.get ⟨n, hn⟩).flatten rest out
        (unpadBuffers userUUID w.link (reads.get ⟨n, hn⟩)) := by
  have hbytes : consumed reads n ++
      ((reads.get ⟨n, hn⟩).flatten ++ (reads.drop (n + 1)).flatten.flatten) =
        userUUID ++ streamOf blocks ++ raw := by
    rw [← hreads.bytes, ← List.append_assoc, ← consumed_succ hn, consumed, ← List.flatten_append,
      ← List.flatten_append, List.take_append_drop]
  have hsize := hreads.size _ (reads.get_mem ⟨n, hn⟩)
  obtain ⟨rfl, hlink, rfl⟩ | ⟨rest, out, hexpects, hleft⟩ := h.state
  · refine ⟨userUUID ++ streamOf blocks, contentOf blocks, ⟨rfl, rfl⟩, ?_⟩
    have hnonempty := hreads.nonempty _ (reads.get_mem ⟨0, hn⟩)
    have hhead : reads.head? = some (reads.get ⟨0, hn⟩) :=
      List.head?_eq_getElem?.trans (List.getElem?_eq_getElem hn)
    have hfirst := hreads.first
    rw [hhead] at hfirst
    generalize reads.get ⟨0, hn⟩ = read at hbytes hsize hnonempty hfirst ⊢
    cases read with
    | nil => exact absurd rfl hnonempty
    | cons b buffers =>
        rw [hlink]
        exact readOf_first hlast huuid hcomplete ⟨_, raw, hbytes⟩ (hfirst b rfl) hsize
  · refine ⟨rest, out, hleft, readOf_inside hlast hexpects
      ⟨(reads.drop (n + 1)).flatten.flatten, raw, ?_⟩ hsize⟩
    rw [← hleft.stream, List.append_assoc] at hbytes
    exact List.append_cancel_left hbytes

/-- **One read**: it has the end of the blocks in it, or the reader stays inside unless the read ends in
the header of the last block. -/
theorem Inside.next (h : Inside last userUUID blocks reads n bytes w) (memory : Nat → UInt8)
    (hlast : last = commandPaddingEnd ∨ last = commandPaddingDirect) (hn : n < reads.length)
    {returned : Bytes}
    (hreturned : returned = ((w.readMultiBuffer memory).1.toOption.getD []).flatten) :
    ((userUUID ++ streamOf blocks).length ≤ (consumed reads (n + 1)).length ∧
      contentOf blocks <+: bytes ++ returned) ∨
    ((consumed reads (n + 1)).length < (userUUID ++ streamOf blocks).length ∧
      (¬CutInHeader userUUID blocks (consumed reads (n + 1)) →
        Inside last userUUID blocks reads (n + 1) (bytes ++ returned) (w.readMultiBuffer memory).2) ∧
      (CutInHeader userUUID blocks (consumed reads (n + 1)) →
        (w.readMultiBuffer memory).2.link.withinPaddingBuffers = false)) := by
  have hzero : last ≠ 0 := by
    obtain rfl | rfl := hlast <;> decide
  have hreader : w.reader = reads.get ⟨n, hn⟩ :: reads.drop (n + 1) :=
    h.reader.trans (List.drop_eq_getElem_cons hn)
  obtain ⟨huser, hlink, hbytes, hinside⟩ := @VisionReader.readMultiBuffer_within memory w _ _ hreader
    (hreads.nonempty _ (reads.get_mem ⟨n, hn⟩)) h.within h.direct
  rw [h.user] at hlink hbytes hinside
  rw [← hreturned] at hbytes hinside
  have hmode := @sameMode_unpadBuffers w.link userUUID (reads.get ⟨n, hn⟩)
  obtain ⟨rest, out, hleft, hread⟩ := h.readOf huuid hcomplete hreads hzero hn
  rw [consumed_succ hn]
  generalize unpadBuffers userUUID w.link (reads.get ⟨n, hn⟩) = result at *
  cases hread with
  | inside rest out newbuffers s hexpects =>
      have hstream : consumed reads n ++ (reads.get ⟨n, hn⟩).flatten ++ rest =
          userUUID ++ streamOf blocks := by
        rw [List.append_assoc, hleft.stream]
      have hcut := hexpects.not_stays_iff hzero hcomplete hstream
      refine .inr ⟨?_, fun hnone => ?_, fun hsome => ?_⟩
      · have hpos := List.length_pos_iff.mpr hexpects.ne_nil
        have hlength := congrArg List.length hstream
        simp only [List.length_append] at hlength ⊢
        omega
      · have hstays : Stays s := not_not.mp fun hleaves => hnone (hcut.mp hleaves)
        have hwithin : s.withinPaddingBuffers = true := hmode.within.trans h.within
        have hsame : s.switch = s := by
          rw [switch_of_stays hstays, ← hwithin]
        rw [hsame] at hlink
        have hdirect : (w.readMultiBuffer memory).2.link.directCopy = false := by
          rw [hlink]
          exact hmode.direct.trans h.direct
        obtain ⟨rfl, hnext⟩ := hinside hdirect
        refine ⟨hnext, huser.trans h.user, hlink ▸ hwithin, hdirect, .inr ⟨rest, out, ?_, ?_, ?_⟩⟩
        · rw [hlink]
          exact hexpects
        · rw [consumed_succ hn, hstream]
        · rw [List.append_assoc, hleft.content]
      · have hleaves := hcut.mpr hsome
        rw [hlink]
        exact switch_of_leaves hleaves hlast (hexpects.currentCommand_eq hleaves)
  | finished rest out newbuffers s hrest hout =>
      refine .inl ⟨?_, ?_⟩
      · rw [← hleft.stream, List.length_append, List.length_append]
        omega
      · rw [← hleft.content]
        exact (List.prefix_append_right_inj bytes).mpr (hout.trans hbytes)

/-- **A run**: as long as no read ends in the header of the last block. -/
theorem inside_or_finished (memory : Nat → UInt8)
    (hlast : last = commandPaddingEnd ∨ last = commandPaddingDirect)
    (hstart : Inside last userUUID blocks reads 0 [] w) (hn : n ≤ reads.length)
    (hcut : ∀ m ≤ n, ¬CutInHeader userUUID blocks (consumed reads m)) :
    ((consumed reads n).length < (userUUID ++ streamOf blocks).length ∧
      Inside last userUUID blocks reads n (w.readTimes memory n).1 (w.readTimes memory n).2) ∨
    ((userUUID ++ streamOf blocks).length ≤ (consumed reads n).length ∧
      contentOf blocks <+: (w.readTimes memory n).1) := by
  induction n with
  | zero =>
      refine .inl ⟨?_, hstart⟩
      rw [List.length_append, huuid]
      exact Nat.lt_of_lt_of_le (Nat.zero_lt_succ 15) (Nat.le_add_right 16 _)
  | succ n ih =>
      rw [VisionReader.readTimes]
      obtain ⟨-, hinside⟩ | ⟨hlength, hcontent⟩ := ih (by omega) fun m hm => hcut m (by omega)
      · obtain hfinished | ⟨hlength, hnext, -⟩ :=
          hinside.next huuid hcomplete hreads memory hlast hn rfl
        · exact .inr hfinished
        · exact .inl ⟨hlength, hnext (hcut (n + 1) le_rfl)⟩
      · refine .inr ⟨?_, hcontent.trans <| List.prefix_append _ _⟩
        exact hlength.trans (length_consumed_mono (Nat.le_succ n))

end Run

/-- **Leaving the blocks.** For any blocks and any reads of at least one byte, whose first buffer has 21
bytes or more, the reader unpads and returns content only up to the end of the last block, and all content
by then, exactly if no read ends inside the header of the last block, after its command, with nothing but
zeros of the lengths read. -/
theorem properAfter_iff {userUUID : Bytes} (huuid : userUUID.length = 16) {blocks : List Block}
    {last : UInt8} (hlast : last = commandPaddingEnd ∨ last = commandPaddingDirect)
    (hcomplete : Complete last blocks) (raw : Bytes) {reads : List (List Bytes)}
    (hreads : Fragments userUUID blocks raw reads) (w : VisionReader) (hreader : w.reader = reads)
    (huser : w.trafficState.userUUID = userUUID) (hlink : w.link = {}) (memory : Nat → UInt8) :
    (∀ n ≤ reads.length, ProperAfter memory w userUUID blocks reads n) ↔
      ∀ n ≤ reads.length, ¬CutInHeader userUUID blocks (consumed reads n) := by
  have hstart : Inside last userUUID blocks reads 0 [] w :=
    ⟨hreader, huser, by rw [hlink], by rw [hlink], .inl ⟨rfl, hlink, rfl⟩⟩
  constructor
  · intro hproper n hn
    induction n using Nat.strong_induction_on with
    | h n ih =>
        intro hcut
        have hlength := hcut.length
        obtain ⟨m, rfl⟩ : ∃ m, n = m + 1 := by
          refine Nat.exists_eq_add_one_of_ne_zero ?_
          rintro rfl
          exact absurd hlength.1 (Nat.not_lt_zero _)
        have hbefore : (consumed reads m).length ≤ (consumed reads (m + 1)).length :=
          length_consumed_mono (Nat.le_succ m)
        have hinside := inside_or_finished huuid hcomplete hreads memory hlast hstart
          (show m ≤ reads.length by omega) fun i hi => ih i (by omega) (by omega)
        obtain ⟨-, hinside⟩ | ⟨hfinished, -⟩ := hinside
        · obtain ⟨hfinished, -⟩ | ⟨-, -, hleaves⟩ :=
            hinside.next huuid hcomplete hreads memory hlast hn rfl
          · omega
          · have hwithin := hproper (m + 1) hn
            rw [ProperAfter, if_pos hlength.2] at hwithin
            exact absurd ((hleaves hcut).symm.trans hwithin.1) (by simp)
        · omega
  · intro hcut n hn
    rw [ProperAfter]
    obtain ⟨hlength, hinside⟩ | ⟨hlength, hcontent⟩ := inside_or_finished huuid hcomplete
      hreads memory hlast hstart hn fun m hm => hcut m (hm.trans hn)
    · rw [if_pos hlength]
      exact ⟨hinside.within, hinside.direct, hinside.returned⟩
    · rw [if_neg (by omega)]
      exact hcontent

/-- Two blocks of a stream, the last one with content. -/
def twoBlocks (last : UInt8) : List Block :=
  [⟨0, [65], [0, 0], by simp, by simp⟩, ⟨last, [66], [], by simp, by simp⟩]

/-- A reader at the start of these reads. -/
def readerOf (reads conn : List (List Bytes)) : VisionReader :=
  { reader := reads, trafficState := { userUUID := List.replicate 16 7 }, isUplink := true, conn }

/-- The same blocks, in a read each. -/
def twoReads : List (List Bytes) :=
  [[List.replicate 16 7 ++ [0, 0, 1, 0, 2, 65, 0, 0]], [[1, 0, 1, 0, 0], [66]]]

theorem properAfter_two_blocks :
    twoReads.length = 2 ∧ ∀ n ≤ 2,
      ProperAfter (fun _ => 0) (readerOf twoReads []) (List.replicate 16 7)
        (twoBlocks commandPaddingEnd) twoReads n := by
  have hcomplete : Complete commandPaddingEnd (twoBlocks commandPaddingEnd) := ⟨rfl, rfl⟩
  have hreads : Fragments (List.replicate 16 7) (twoBlocks commandPaddingEnd) [] twoReads := by
    refine ⟨by decide +kernel, by decide, by decide, ?_⟩
    rintro b ⟨⟩
    decide
  refine ⟨rfl, (properAfter_iff (by decide) (.inl rfl) hcomplete [] hreads (readerOf twoReads []) rfl rfl
    rfl _).mpr ?_⟩
  rintro n hn ⟨front, block, j, hblocks, hpos, hle, hconsumed, -⟩
  have hdrop := congrArg List.dropLast hblocks
  rw [List.dropLast_concat] at hdrop
  have hlength := congrArg List.length hconsumed
  have hfront : (List.replicate 16 7 ++ streamOf front : Bytes).length = 24 := by
    rw [← hdrop]
    decide +kernel
  have hheader : block.header.length = 5 := rfl
  rw [List.length_append, hfront, List.length_take, hheader] at hlength
  have hends : ∀ n ≤ twoReads.length,
      (consumed twoReads n).length ≤ 24 ∨ (consumed twoReads n).length = 30 := by decide +kernel
  have hend := hends n hn
  omega

/-- A read ends after the command of the last block: the reader goes over to the raw connection, and the
content of the block is not read. -/
theorem direct_copy_inside_header :
    let w := readerOf [[List.replicate 16 7 ++ [0, 0, 1, 0, 2, 65, 0, 0, 2]], [[0, 1, 0, 0, 66]]]
      [[[8]]]
    (w.readTimes (fun _ => 0) 1).2.link.directCopy = true ∧
      (w.readTimes (fun _ => 0) 2).1 = [65, 8] := by
  decide +kernel

end V2RootCore.Vision
