import V2RootCore.Vision.Padding

/-!
# Padding is taken off again

Inside a stream of blocks the state of a link says how many bytes of the header, of the content and of
the padding of a block are still to come. `Expects` states this together with the bytes that are still to
come and the content in them; the loop keeps it for every cut.
-/

namespace V2RootCore.Vision

open Go

/-- A block of a stream. -/
structure Block where
  command : UInt8
  content : Bytes
  padding : Bytes
  content_lt : content.length < 2 ^ 16
  padding_lt : padding.length < 2 ^ 16

namespace Block

def header (block : Block) : Bytes :=
  [block.command, UInt8.ofNat (block.content.length / 256), UInt8.ofNat block.content.length,
    UInt8.ofNat (block.padding.length / 256), UInt8.ofNat block.padding.length]

def bytes (block : Block) : Bytes := block.header ++ (block.content ++ block.padding)

end Block

/-- The blocks go on up to the last one, which has a command of its own. -/
def Complete (last : UInt8) : List Block → Prop
  | [] => False
  | [block] => block.command = last
  | block :: block' :: blocks => block.command = 0 ∧ Complete last (block' :: blocks)

def streamOf (blocks : List Block) : Bytes := blocks.flatMap Block.bytes

def contentOf (blocks : List Block) : Bytes := blocks.flatMap Block.content

theorem complete_cons {last : UInt8} {block : Block} {blocks : List Block}
    (h : Complete last (block :: blocks)) :
    (block.command = 0 ∧ Complete last blocks) ∨ (block.command = last ∧ blocks = []) := by
  cases blocks with
  | nil => exact .inr ⟨h, rfl⟩
  | cons block' blocks => exact .inl h

theorem streamOf_cons (block : Block) (blocks : List Block) : streamOf (block :: blocks) =
    block.header ++ (block.content ++ (block.padding ++ streamOf blocks)) := by
  simp [streamOf, Block.bytes]

namespace LinkState

variable {s : LinkState}

theorem or_bytes {n : Nat} (hn : n < 2 ^ 16) :
    (256 * ((n : Int) / 256 % 256)).toNat ||| n % 256 = n := by
  have hhigh : (256 * ((n : Int) / 256 % 256)).toNat = 2 ^ 8 * (n / 256) := by omega
  rw [hhigh, ← Nat.two_pow_add_eq_or_of_lt (Nat.mod_lt n (by norm_num))]
  exact Nat.div_add_mod n 256

theorem remainingCommand_headerByte (data : UInt8) :
    (s.headerByte data).remainingCommand = s.remainingCommand - 1 := by
  rw [headerByte]
  dsimp only
  split <;> rfl

theorem remainingCommand_headerBytes (bytes : Bytes) :
    (bytes.foldl headerByte s).remainingCommand = s.remainingCommand - bytes.length := by
  induction bytes generalizing s with
  | nil => simp
  | cons data bytes ih =>
      rw [List.foldl_cons, ih, remainingCommand_headerByte, List.length_cons]
      push_cast
      ring

/-- The state after the whole header. -/
def body (s : LinkState) (command : UInt8) (content padding : Nat) : LinkState :=
  { s with
    remainingCommand := 0
    remainingContent := content
    remainingPadding := padding
    currentCommand := command.toNat }

theorem header_foldl (hs : s.remainingCommand = 5) (block : Block) :
    block.header.foldl headerByte s =
      s.body block.command block.content.length block.padding.length := by
  simp only [Block.header, List.foldl_cons, List.foldl_nil, headerByte, hs, body]
  norm_num
  exact ⟨or_bytes block.content_lt, or_bytes block.padding_lt⟩

/-- A header comes next. -/
structure Ready (s : LinkState) : Prop where
  command : s.remainingCommand = 5
  content : s.remainingContent ≤ 0
  padding : s.remainingPadding ≤ 0
  current : s.currentCommand = 0

end LinkState

open LinkState

inductive Expects (last : UInt8) (blocks : List Block) : LinkState → Bytes → Bytes → Prop where
  | header (s : LinkState) (block : Block) (later : List Block) (j : Nat) (hs : s.Ready)
      (hcomplete : Complete last (block :: later)) (hlater : block :: later <:+ blocks) (hj : j < 5) :
      Expects last blocks ((block.header.take j).foldl headerByte s)
        (block.header.drop j ++ (block.content ++ (block.padding ++ streamOf later)))
        (block.content ++ contentOf later)
  | body (s : LinkState) (block : Block) (later : List Block) (content padding : Bytes)
      (hcomplete : Complete last (block :: later)) (hlater : block :: later <:+ blocks)
      (hcontent : content <:+ block.content) (hpadding : padding <:+ block.padding)
      (hne : content ≠ [] ∨ padding ≠ []) :
      Expects last blocks (s.body block.command content.length padding.length)
        (content ++ (padding ++ streamOf later)) (content ++ contentOf later)

structure Finished (last : UInt8) (s : LinkState) : Prop where
  command : s.remainingCommand = -1
  content : s.remainingContent = -1
  padding : s.remainingPadding = -1
  current : s.currentCommand = last.toNat

inductive Unpadded (last : UInt8) (blocks : List Block) (newbuffer : Bytes) :
    Bytes → Bytes → Bytes → Bytes × LinkState → Prop where
  | inside (b rest out out' : Bytes) (s : LinkState) (hexpects : Expects last blocks s rest out') :
      Unpadded last blocks newbuffer b (b ++ rest) (out ++ out') (newbuffer ++ out, s)
  | finished (rest raw out : Bytes) (s : LinkState) (hfinished : Finished last s) :
      Unpadded last blocks newbuffer (rest ++ raw) rest out (newbuffer ++ out ++ raw, s)

section Loop

variable {last : UInt8} {blocks : List Block} {newbuffer b rest out : Bytes} {s : LinkState}
  {result : Bytes × LinkState}

theorem Unpadded.cons (part out₀ : Bytes)
    (h : Unpadded last blocks (newbuffer ++ out₀) b rest out result) :
    Unpadded last blocks newbuffer (part ++ b) (part ++ rest) (out₀ ++ out) result := by
  cases h with
  | inside _ rest out out' s hexpects =>
      rw [← List.append_assoc, ← List.append_assoc, List.append_assoc newbuffer]
      exact .inside _ rest _ out' s hexpects
  | finished _ raw _ s hfinished =>
      rw [← List.append_assoc, List.append_assoc newbuffer]
      exact .finished _ raw _ s hfinished

theorem write_eq (hroom : newbuffer.length + b.length ≤ Buf.size) :
    write newbuffer b = newbuffer ++ b := by
  rw [write, List.take_of_length_le (by omega)]

theorem Expects.ne_nil (h : Expects last blocks s rest out) : rest ≠ [] := by
  cases h with
  | header s block later j hs hcomplete hlater hj =>
      have : 0 < (block.header.drop j).length := by simp [Block.header, hj]
      exact List.append_ne_nil_of_left_ne_nil (List.length_pos_iff.mp this) _
  | body s block later content padding hcomplete hlater hcontent hpadding hne =>
      obtain hne | hne := hne
      · exact List.append_ne_nil_of_left_ne_nil hne _
      · exact List.append_ne_nil_of_right_ne_nil _ (List.append_ne_nil_of_left_ne_nil hne _)

theorem unpadded_of_body (hlast : last ≠ 0) {fuel : Nat} (block : Block) (later : List Block)
    (content padding : Bytes) (hcomplete : Complete last (block :: later))
    (hlater : block :: later <:+ blocks) (hcontent : content <:+ block.content)
    (hpadding : padding <:+ block.padding) (hroom : newbuffer.length + b.length ≤ Buf.size)
    (ih : ∀ s rest out, Expects last blocks s rest out →
      (∃ tail raw, b ++ tail = rest ++ raw) →
      Unpadded last blocks newbuffer b rest out (unpad fuel s b newbuffer))
    (hcut : ∃ tail raw, b ++ tail = (content ++ (padding ++ streamOf later)) ++ raw) :
    Unpadded last blocks newbuffer b (content ++ (padding ++ streamOf later))
      (content ++ contentOf later)
      (let s := s.body block.command content.length padding.length
      if s.blockDone then
        if s.currentCommand = 0 then unpad fuel { s with remainingCommand := 5 } b newbuffer
        else
          (write newbuffer b,
            { s with remainingCommand := -1, remainingContent := -1, remainingPadding := -1 })
      else unpad fuel s b newbuffer) := by
  dsimp only
  by_cases hne : content ≠ [] ∨ padding ≠ []
  · have hdone : ¬(s.body block.command content.length padding.length).blockDone = true := by
      simp only [← List.length_pos_iff] at hne
      rw [blockDone, decide_eq_true_iff]
      rintro ⟨-, hcontent, hpadding⟩
      change (content.length : Int) ≤ 0 at hcontent
      change (padding.length : Int) ≤ 0 at hpadding
      omega
    rw [if_neg hdone]
    exact ih _ _ _ (.body s block later content padding hcomplete hlater hcontent hpadding hne) hcut
  · rw [not_or, not_not, not_not] at hne
    obtain ⟨rfl, rfl⟩ := hne
    rw [if_pos (by simp [blockDone, body])]
    obtain ⟨hcontinue, hnext⟩ | ⟨hcommand, rfl⟩ := complete_cons hcomplete
    · rw [if_pos (by simp [body, hcontinue])]
      obtain ⟨block', later', rfl⟩ : ∃ block' later', later = block' :: later' := by
        cases later with
        | nil => exact hnext.elim
        | cons block' later' => exact ⟨block', later', rfl⟩
      have hready : ({ s.body block.command 0 0 with remainingCommand := 5 } : LinkState).Ready :=
        ⟨rfl, by simp [body], by simp [body], by simp [body, hcontinue]⟩
      have hexpects := Expects.header _ block' later' 0 hready hnext
        ((List.suffix_cons block _).trans hlater) (by norm_num)
      rw [List.take_zero, List.foldl_nil, List.drop_zero, ← streamOf_cons] at hexpects
      have hcontent : contentOf (block' :: later') = block'.content ++ contentOf later' := by
        simp [contentOf]
      rw [← hcontent] at hexpects
      exact ih _ _ _ hexpects hcut
    · have hne : last.toNat ≠ 0 := fun hzero => hlast (UInt8.toNat_inj.mp hzero)
      rw [if_neg (by simpa [body, hcommand] using hne), write_eq hroom]
      have hfinished : Unpadded last blocks newbuffer ([] ++ b) [] [] (newbuffer ++ [] ++ b,
          { s.body block.command 0 0 with
            remainingCommand := -1, remainingContent := -1, remainingPadding := -1 }) :=
        .finished [] b [] _ ⟨rfl, rfl, rfl, by simp [body, hcommand]⟩
      simpa [streamOf, contentOf] using hfinished

theorem split_of_append_eq {part tail raw : Bytes} (hcut : b ++ tail = part ++ raw) {n : Nat}
    (hb : n ≤ b.length) (hpart : n ≤ part.length) :
    b = part.take n ++ b.drop n ∧ b.drop n ++ tail = part.drop n ++ raw := by
  have htake := congrArg (List.take n) hcut
  have hdrop := congrArg (List.drop n) hcut
  rw [List.take_append_of_le_length hb, List.take_append_of_le_length hpart] at htake
  rw [List.drop_append_of_le_length hb, List.drop_append_of_le_length hpart] at hdrop
  exact ⟨by rw [← htake, List.take_append_drop], hdrop⟩

theorem unpadded_nil (hexpects : Expects last blocks s rest out) :
    Unpadded last blocks newbuffer [] rest out (newbuffer, s) := by
  have hinside : Unpadded last blocks newbuffer [] ([] ++ rest) ([] ++ out) (newbuffer ++ [], s) :=
    .inside [] rest [] out s hexpects
  simpa using hinside

theorem round_header (hs : 0 < s.remainingCommand) (data : UInt8) (b newbuffer : Bytes) :
    s.round data b newbuffer = (b, s.headerByte data, newbuffer) := if_pos hs

theorem round_content (s : LinkState) (command data : UInt8) {content : Bytes} (hcontent : content ≠ [])
    (padding : Nat) (b newbuffer : Bytes) :
    (s.body command content.length padding).round data b newbuffer =
      ((data :: b).drop (min content.length (b.length + 1)),
        s.body command (content.drop (min content.length (b.length + 1))).length padding,
        write newbuffer ((data :: b).take (min content.length (b.length + 1)))) := by
  have hpos := List.length_pos_iff.mpr hcontent
  rw [LinkState.round, if_neg (by simp [body]), if_pos (by simpa [body] using hpos)]
  simp only [body, Int.toNat_natCast, List.length_drop]
  congr
  omega

theorem round_padding (s : LinkState) (command data : UInt8) (padding b newbuffer : Bytes) :
    (s.body command 0 padding.length).round data b newbuffer =
      ((data :: b).drop (min padding.length (b.length + 1)),
        s.body command 0 (padding.drop (min padding.length (b.length + 1))).length, newbuffer) := by
  rw [LinkState.round, if_neg (by simp [body]), if_neg (by simp [body])]
  simp only [body, Int.toNat_natCast, List.length_drop]
  congr
  omega

/-- **The loop**, on any cut of the blocks and what follows them. -/
theorem unpad_spec (hlast : last ≠ 0) (fuel : Nat) (hfuel : b.length ≤ fuel)
    (hexpects : Expects last blocks s rest out) (hcut : ∃ tail raw, b ++ tail = rest ++ raw)
    (hroom : newbuffer.length + b.length ≤ Buf.size) :
    Unpadded last blocks newbuffer b rest out (unpad fuel s b newbuffer) := by
  induction fuel generalizing s b newbuffer rest out with
  | zero =>
      obtain rfl := List.length_eq_zero_iff.mp (Nat.le_zero.mp hfuel)
      exact unpadded_nil hexpects
  | succ fuel ih =>
      cases b with
      | nil => exact unpadded_nil hexpects
      | cons data b =>
          rw [List.length_cons] at hfuel hroom
          obtain ⟨tail, raw, hcut⟩ := hcut
          rw [unpad]
          cases hexpects with
          | header s block later j hs hcomplete hlater hj =>
              have hcons : block.header.drop j = block.header.get ⟨j, hj⟩ :: block.header.drop (j + 1) :=
                List.drop_eq_getElem_cons hj
              rw [hcons, List.cons_append, List.cons_append, List.cons_append] at hcut
              obtain ⟨rfl, hrest⟩ := List.cons.inj hcut
              have hnext : ((block.header.take j).foldl headerByte s).headerByte
                  (block.header.get ⟨j, hj⟩) = (block.header.take (j + 1)).foldl headerByte s := by
                rw [← List.take_concat_get' _ _ hj, List.foldl_append]
                rfl
              have hcommand : ∀ i ≤ 5, ((block.header.take i).foldl headerByte s).remainingCommand =
                  5 - i := by
                intro i hi
                rw [remainingCommand_headerBytes, hs.command, List.length_take]
                have hlength : block.header.length = 5 := rfl
                omega
              rw [round_header (by rw [hcommand j hj.le]; omega), hnext, hcons, List.cons_append]
              refine Unpadded.cons [_] [] ?_
              rw [List.append_nil]
              dsimp only
              by_cases hmore : j + 1 < 5
              · have hdone : ¬((block.header.take (j + 1)).foldl headerByte s).blockDone = true := by
                  rw [blockDone, decide_eq_true_iff, hcommand (j + 1) hj]
                  omega
                rw [if_neg hdone]
                exact ih (by omega) (.header s block later (j + 1) hs hcomplete hlater hmore)
                  ⟨tail, raw, hrest⟩ (by omega)
              · obtain rfl : j = 4 := by omega
                have hall : block.header.take (4 + 1) = block.header := rfl
                rw [hall, header_foldl hs.command]
                exact unpadded_of_body hlast block later block.content block.padding hcomplete hlater
                  List.suffix_rfl List.suffix_rfl (by omega)
                  (fun s rest out hexpects hcut => ih (by omega) hexpects hcut (by omega))
                  ⟨tail, raw, hrest⟩
          | body s block later content padding hcomplete hlater hcontent hpadding hne =>
              by_cases hnil : content = []
              · subst hnil
                rw [List.length_nil, round_padding]
                have hn : min padding.length (b.length + 1) ≤ padding.length := min_le_left _ _
                have hn' : min padding.length (b.length + 1) ≤ (data :: b).length := min_le_right _ _
                have hpos : 0 < min padding.length (b.length + 1) :=
                  lt_min (List.length_pos_iff.mpr (by simpa using hne)) (Nat.succ_pos _)
                generalize min padding.length (b.length + 1) = n at hn hn' hpos ⊢
                rw [List.nil_append, List.append_assoc] at hcut
                obtain ⟨hsplit, hrest⟩ := split_of_append_eq hcut hn' hn
                have hlength : ((data :: b).drop n).length ≤ b.length := by
                  rw [List.length_drop, List.length_cons]
                  omega
                have hroom' : (newbuffer ++ []).length + ((data :: b).drop n).length ≤ Buf.size := by
                  rw [List.append_nil]
                  omega
                have hcons := (unpadded_of_body (s := s) hlast block later [] (padding.drop n) hcomplete
                  hlater hcontent ((List.drop_suffix n padding).trans hpadding) hroom'
                  (fun s rest out hexpects hcut => ih (by omega) hexpects hcut hroom')
                  ⟨tail, raw, by simpa using hrest⟩).cons (padding.take n) []
                rw [← hsplit, List.append_nil, List.nil_append, ← List.append_assoc,
                  List.take_append_drop] at hcons
                exact hcons
              · rw [round_content s block.command data hnil]
                have hn : min content.length (b.length + 1) ≤ content.length := min_le_left _ _
                have hn' : min content.length (b.length + 1) ≤ b.length + 1 := min_le_right _ _
                have hpos : 0 < min content.length (b.length + 1) :=
                  lt_min (List.length_pos_iff.mpr hnil) (Nat.succ_pos _)
                generalize min content.length (b.length + 1) = n at hn hn' hpos ⊢
                rw [List.append_assoc] at hcut
                obtain ⟨hsplit, hrest⟩ := split_of_append_eq hcut hn' hn
                have hlength : ((data :: b).drop n).length ≤ b.length := by
                  rw [List.length_drop, List.length_cons]
                  omega
                have hwrite : write newbuffer ((data :: b).take n) = newbuffer ++ content.take n := by
                  have htake : (data :: b).take n = content.take n := by
                    rw [hsplit, List.take_left' (by rw [List.length_take]; omega)]
                  rw [htake, write_eq (by rw [List.length_take]; omega)]
                have hroom' : (newbuffer ++ content.take n).length + ((data :: b).drop n).length ≤
                    Buf.size := by
                  rw [List.length_append, List.length_take, List.length_drop, List.length_cons]
                  omega
                have hcons := (unpadded_of_body (s := s) hlast block later (content.drop n) padding
                  hcomplete hlater ((List.drop_suffix n content).trans hcontent) hpadding hroom'
                  (fun s rest out hexpects hcut => ih (by omega) hexpects hcut hroom')
                  ⟨tail, raw, by simpa using hrest⟩).cons (content.take n) (content.take n)
                have happend : ∀ more, content.take n ++ (content.drop n ++ more) = content ++ more :=
                  fun more => by rw [← List.append_assoc, List.take_append_drop]
                rw [← hsplit, happend, happend] at hcons
                rw [hwrite]
                exact hcons

end Loop

section Buffers

variable {last : UInt8} {blocks : List Block} {userUUID rest out raw b : Bytes} {s : LinkState}
  {buffers : List Bytes}

theorem Expects.not_initial (h : Expects last blocks s rest out) : s.initial = false := by
  have hcommand : 0 ≤ s.remainingCommand := by
    cases h with
    | header s block later j hs hcomplete hlater hj =>
        rw [remainingCommand_headerBytes, hs.command, List.length_take]
        have hlength : block.header.length = 5 := rfl
        omega
    | body s block later content padding hcomplete hlater hcontent hpadding hne => exact le_rfl
  rw [initial, decide_eq_false_iff_not]
  omega

theorem Finished.initial (h : Finished last s) : s.initial = true := by
  rw [LinkState.initial, decide_eq_true_iff]
  exact ⟨h.command, h.content, h.padding⟩

theorem xtlsUnpadding_inside (hlast : last ≠ 0) (hexpects : Expects last blocks s rest out)
    (hcut : ∃ tail raw, b ++ tail = rest ++ raw) (hb : b.length ≤ Buf.size) :
    Unpadded last blocks [] b rest out (xtlsUnpadding userUUID s b) := by
  rw [xtlsUnpadding, hexpects.not_initial, if_neg (by simp)]
  exact unpad_spec hlast b.length le_rfl hexpects hcut (by simpa using hb)

theorem xtlsUnpadding_first (hlast : last ≠ 0) (huuid : userUUID.length = 16)
    (hcomplete : Complete last blocks) (hinitial : s.initial = true) (hcurrent : s.currentCommand = 0)
    (hcut : ∃ tail raw, b ++ tail = userUUID ++ streamOf blocks ++ raw) (hfirst : 21 ≤ b.length)
    (hb : b.length ≤ Buf.size) :
    Unpadded last blocks [] b (userUUID ++ streamOf blocks) (contentOf blocks)
      (xtlsUnpadding userUUID s b) := by
  obtain ⟨tail, raw, hcut⟩ := hcut
  rw [List.append_assoc] at hcut
  obtain ⟨hsplit, hrest⟩ := split_of_append_eq hcut (show 16 ≤ b.length by omega) huuid.ge
  rw [List.drop_of_length_le huuid.le, List.nil_append] at hrest
  rw [List.take_of_length_le huuid.le] at hsplit
  have htake : userUUID = b.take 16 := by
    rw [hsplit, List.take_left' huuid]
  rw [xtlsUnpadding, hinitial, if_pos rfl, if_pos ⟨hfirst, htake⟩]
  obtain ⟨block, later, rfl⟩ : ∃ block later, blocks = block :: later := by
    cases blocks with
    | nil => exact hcomplete.elim
    | cons block later => exact ⟨block, later, rfl⟩
  have hstate := of_decide_eq_true hinitial
  have hready : ({ s with remainingCommand := 5 } : LinkState).Ready := by
    refine ⟨rfl, ?_, ?_, hcurrent⟩
    · exact hstate.2.1.trans_le (by norm_num)
    · exact hstate.2.2.trans_le (by norm_num)
  have hexpects := Expects.header _ block later 0 hready hcomplete List.suffix_rfl (by norm_num)
  rw [List.take_zero, List.foldl_nil, List.drop_zero, ← streamOf_cons] at hexpects
  have hdrop : (b.drop 16).length ≤ b.length := by
    rw [List.length_drop]
    omega
  have hunpad : Unpadded last (block :: later) ([] ++ []) (b.drop 16) _ _ _ :=
    unpad_spec hlast b.length hdrop hexpects ⟨tail, raw, hrest⟩ (by simpa using hdrop.trans hb)
  have hcons := hunpad.cons userUUID []
  rw [← hsplit] at hcons
  simpa [contentOf] using hcons

theorem unpadBuffers_finished (h : Finished last s) (hbuffers : ∀ b ∈ buffers, ¬userUUID <+: b) :
    unpadBuffers userUUID s buffers = (buffers, s) := by
  induction buffers with
  | nil => rfl
  | cons b buffers ih =>
      obtain ⟨hb, hrest⟩ := List.forall_mem_cons.mp hbuffers
      have hsame : xtlsUnpadding userUUID s b = (b, s) := by
        rw [xtlsUnpadding, h.initial, if_pos rfl, if_neg]
        rintro ⟨-, htake⟩
        exact hb (htake ▸ List.take_prefix 16 b)
      rw [unpadBuffers, hsame]
      dsimp only
      rw [ih hrest]

/-- The state is the initial one after the buffers that have the end of the blocks in them. -/
def EndsAt (userUUID : Bytes) (s : LinkState) (length : Nat) (buffers : List Bytes) : Prop :=
  ∀ i ≤ buffers.length, 0 < i → ((unpadBuffers userUUID s (buffers.take i)).2.initial = true ↔
    length ≤ (buffers.take i).flatten.length)

/-- No buffer that starts after the blocks is taken for the start of others. -/
def Clear (userUUID : Bytes) (length : Nat) (buffers : List Bytes) : Prop :=
  ∀ i b, buffers[i]? = some b → length ≤ (buffers.take i).flatten.length → ¬userUUID <+: b

theorem Clear.tail {length : Nat} (h : Clear userUUID length (b :: buffers)) :
    Clear userUUID (length - b.length) buffers := by
  intro i b' hb' hlength
  refine h (i + 1) b' hb' ?_
  rw [List.take_succ_cons, List.flatten_cons, List.length_append]
  omega

theorem unpadBuffers_fst (s : LinkState) (b : Bytes) (buffers : List Bytes) :
    (unpadBuffers userUUID s (b :: buffers)).1 =
      (xtlsUnpadding userUUID s b).1 :: (unpadBuffers userUUID (xtlsUnpadding userUUID s b).2 buffers).1 :=
  rfl

theorem unpadBuffers_of_first (hclear : Clear userUUID rest.length (b :: buffers))
    (hflatten : (b :: buffers).flatten = rest ++ raw)
    (hfirst : Unpadded last blocks [] b rest out (xtlsUnpadding userUUID s b))
    (hrest : ∀ s' rest' out', Expects last blocks s' rest' out' → buffers.flatten = rest' ++ raw →
      Clear userUUID rest'.length buffers →
      (unpadBuffers userUUID s' buffers).1.flatten = out' ++ raw ∧
        EndsAt userUUID s' rest'.length buffers) :
    (unpadBuffers userUUID s (b :: buffers)).1.flatten = out ++ raw ∧
      EndsAt userUUID s rest.length (b :: buffers) := by
  have hsnd : ∀ i, (unpadBuffers userUUID s (b :: buffers.take i)).2 =
      (unpadBuffers userUUID (xtlsUnpadding userUUID s b).2 (buffers.take i)).2 := fun i => rfl
  rw [unpadBuffers_fst, List.flatten_cons]
  rw [List.flatten_cons] at hflatten
  generalize xtlsUnpadding userUUID s b = result at hfirst hsnd ⊢
  cases hfirst with
  | inside _ rest' out₁ out₂ s' hexpects =>
      rw [List.append_assoc] at hflatten
      have hlater := hclear.tail
      rw [List.length_append, Nat.add_sub_cancel_left] at hlater
      obtain ⟨hout, hends⟩ := hrest s' rest' out₂ hexpects (List.append_cancel_left hflatten) hlater
      refine ⟨by simp [hout], fun i hi hpos => ?_⟩
      obtain ⟨i, rfl⟩ := Nat.exists_eq_add_one_of_ne_zero hpos.ne'
      rw [List.take_succ_cons, hsnd, List.flatten_cons, List.length_append, List.length_append,
        Nat.add_le_add_iff_left]
      obtain rfl | hi' := Nat.eq_zero_or_pos i
      · have hpos := List.length_pos_iff.mpr hexpects.ne_nil
        refine iff_of_false ?_ ?_
        · rw [List.take_zero, unpadBuffers, hexpects.not_initial]
          simp
        · rw [List.take_zero, List.flatten_nil, List.length_nil]
          omega
      · exact hends i (by simpa using hi) hi'
  | finished _ raw' _ s' hfinished =>
      have hbuffers : ∀ b' ∈ buffers, ¬userUUID <+: b' := by
        intro b' hb'
        obtain ⟨i, hi⟩ := List.mem_iff_getElem?.mp hb'
        refine hclear (i + 1) b' hi ?_
        rw [List.take_succ_cons, List.flatten_cons, List.length_append, List.length_append]
        omega
      have hraw : raw' ++ buffers.flatten = raw := by
        rw [List.append_assoc] at hflatten
        exact List.append_cancel_left hflatten
      refine ⟨by simp [unpadBuffers_finished hfinished hbuffers, hraw], fun i hi hpos => ?_⟩
      obtain ⟨i, rfl⟩ := Nat.exists_eq_add_one_of_ne_zero hpos.ne'
      rw [List.take_succ_cons, hsnd, unpadBuffers_finished hfinished fun b' hb' =>
        hbuffers b' (List.mem_of_mem_take hb')]
      refine iff_of_true hfinished.initial ?_
      rw [List.flatten_cons, List.length_append, List.length_append]
      omega

theorem unpadBuffers_inside (hlast : last ≠ 0) (hexpects : Expects last blocks s rest out)
    (hflatten : buffers.flatten = rest ++ raw) (hsize : ∀ b ∈ buffers, b.length ≤ Buf.size)
    (hclear : Clear userUUID rest.length buffers) :
    (unpadBuffers userUUID s buffers).1.flatten = out ++ raw ∧
      EndsAt userUUID s rest.length buffers := by
  induction buffers generalizing s rest out with
  | nil =>
      have hnil := List.append_eq_nil_iff.mp hflatten.symm
      exact absurd hnil.1 hexpects.ne_nil
  | cons b buffers ih =>
      obtain ⟨hb, hbuffers⟩ := List.forall_mem_cons.mp hsize
      refine unpadBuffers_of_first hclear hflatten
        (xtlsUnpadding_inside hlast hexpects ⟨buffers.flatten, raw, hflatten⟩ hb) ?_
      intro s' rest' out' hexpects' hflatten' hclear'
      exact ih hexpects' hflatten' hbuffers hclear'

theorem unpadBuffers_stream (hlast : last ≠ 0) (huuid : userUUID.length = 16)
    (hcomplete : Complete last blocks)
    (hflatten : buffers.flatten = userUUID ++ streamOf blocks ++ raw)
    (hsize : ∀ b ∈ buffers, b.length ≤ Buf.size) (hfirst : ∀ b, buffers.head? = some b → 21 ≤ b.length)
    (hclear : Clear userUUID (userUUID ++ streamOf blocks).length buffers) :
    (unpadBuffers userUUID {} buffers).1.flatten = contentOf blocks ++ raw ∧
      EndsAt userUUID {} (userUUID ++ streamOf blocks).length buffers := by
  cases buffers with
  | nil =>
      have hlength := congrArg List.length hflatten
      simp only [List.flatten_nil, List.length_nil, List.length_append, huuid] at hlength
      omega
  | cons b buffers =>
      obtain ⟨hb, hbuffers⟩ := List.forall_mem_cons.mp hsize
      refine unpadBuffers_of_first hclear hflatten (xtlsUnpadding_first hlast huuid hcomplete rfl rfl
        ⟨buffers.flatten, raw, hflatten⟩ (hfirst b rfl) hb) ?_
      intro s' rest' out' hexpects hflatten' hclear'
      exact unpadBuffers_inside hlast hexpects hflatten' hbuffers hclear'

end Buffers

section Padding

theorem byte_natCast (n : Nat) : byte n = UInt8.ofNat n := by
  have hmod : ((n : Int) % 256).toNat = n % 256 := by omega
  rw [byte, hmod]
  exact UInt8.toNat_inj.mp (by simp)

theorem byte_natCast_div (n : Nat) : byte ((n : Int) / 256) = UInt8.ofNat (n / 256) :=
  byte_natCast (n / 256)

theorem exists_paddingLen {n : Nat} (hn : n ≤ 8171) (longPadding : Bool) (l : Nat) :
    ∃ m : Nat, paddingLen n longPadding l = m ∧ 21 + n + m ≤ Buf.size := by
  have hsize : ((Buf.size : Nat) : Int) = 8192 := rfl
  have hnonneg : 0 ≤ paddingLen n longPadding l := by
    rw [paddingLen]
    split_ifs <;> omega
  have hle : paddingLen n longPadding l ≤ Buf.size - 21 - n := min_le_right _ _
  exact ⟨(paddingLen n longPadding l).toNat, (Int.toNat_of_nonneg hnonneg).symm, by omega⟩

theorem xtlsPadding_eq {b : Option Bytes} (hb : (b.getD []).length ≤ 8171) (command : UInt8)
    {userUUID : Bytes} (huuid : userUUID.length ≤ 16) (longPadding : Bool) (l : Nat) :
    ∃ block : Block, block.command = command ∧ block.content = b.getD [] ∧
      xtlsPadding b command userUUID longPadding l = .ok (userUUID ++ block.bytes, []) := by
  rw [xtlsPadding]
  generalize b.getD [] = content at hb ⊢
  obtain ⟨m, hm, hroom⟩ := exists_paddingLen hb longPadding l
  have hsize : Buf.size = 8192 := rfl
  have hlength : (List.replicate m (0 : UInt8)).length = m := List.length_replicate
  refine ⟨⟨command, content, List.replicate m 0, by omega, by omega⟩, rfl, rfl, ?_⟩
  rw [hm, byte_natCast, byte_natCast, byte_natCast_div, byte_natCast_div]
  simp only [Block.bytes, Block.header, hlength]
  have hheader : [command, UInt8.ofNat (content.length / 256), UInt8.ofNat content.length,
      UInt8.ofNat (m / 256), UInt8.ofNat m].length = 5 := rfl
  generalize [command, UInt8.ofNat (content.length / 256), UInt8.ofNat content.length,
      UInt8.ofNat (m / 256), UInt8.ofNat m] = header at hheader ⊢
  have hnil : write [] userUUID = userUUID :=
    write_eq (show ([] : Bytes).length + userUUID.length ≤ Buf.size by rw [List.length_nil]; omega)
  have hwrite : write userUUID header = userUUID ++ header := write_eq (by omega)
  rw [hnil, hwrite, write_eq (by rw [List.length_append]; omega), extend, if_neg]
  · simp [Except.map]
  · rw [List.length_append, List.length_append]
    push_cast
    omega

theorem padContents_eq {last : UInt8} {contents : List Content} (hne : contents ≠ [])
    (hcontents : ∀ c ∈ contents, (c.b.getD []).length ≤ 8171) {userUUID : Bytes}
    (huuid : userUUID.length ≤ 16) :
    ∃ blocks, Complete last blocks ∧ contentOf blocks = contents.flatMap (fun c => c.b.getD []) ∧
      padContents last userUUID contents = .ok (userUUID ++ streamOf blocks) := by
  induction contents generalizing userUUID with
  | nil => exact absurd rfl hne
  | cons c contents ih =>
      obtain ⟨hc, hrest⟩ := List.forall_mem_cons.mp hcontents
      cases contents with
      | nil =>
          obtain ⟨block, hcommand, hcontent, hpadding⟩ :=
            xtlsPadding_eq hc last huuid c.longPadding c.l
          refine ⟨[block], hcommand, by simp [contentOf, hcontent], ?_⟩
          rw [padContents, hpadding]
          simp [streamOf, Except.map]
      | cons c' contents =>
          obtain ⟨block, hcommand, hcontent, hpadding⟩ :=
            xtlsPadding_eq hc commandPaddingContinue huuid c.longPadding c.l
          obtain ⟨blocks, hcomplete, hcontentOf, hblocks⟩ :=
            ih (List.cons_ne_nil _ _) hrest (show ([] : Bytes).length ≤ 16 by simp)
          refine ⟨block :: blocks, ?_, ?_, ?_⟩
          · cases blocks with
            | nil => exact hcomplete.elim
            | cons block' blocks => exact ⟨hcommand, hcomplete⟩
          · rw [List.flatMap_cons, ← hcontentOf, ← hcontent]
            simp [contentOf]
          · rw [padContents, hpadding]
            simp only [bind, Except.bind, hblocks]
            simp [streamOf]

end Padding

/-- **Padding and fragmentation.** Whatever is padded with whatever padding, and however the blocks and
what follows them are cut into buffers, what comes out is the content and what follows, and the state is
the initial one exactly from the end of the last block on. -/
theorem unpadBuffers_padContents {userUUID : Bytes} (huuid : userUUID.length = 16)
    {contents : List Content} (hne : contents ≠ [])
    (hcontents : ∀ c ∈ contents, (c.b.getD []).length ≤ 8171) {last : UInt8}
    (hlast : last = commandPaddingEnd ∨ last = commandPaddingDirect) (raw : Bytes) :
    ∃ stream, padContents last userUUID contents = .ok stream ∧
      ∀ buffers : List Bytes, buffers.flatten = stream ++ raw → (∀ b ∈ buffers, b.length ≤ 8192) →
        (∀ b, buffers.head? = some b → 21 ≤ b.length) → Clear userUUID stream.length buffers →
        (unpadBuffers userUUID {} buffers).1.flatten =
            contents.flatMap (fun c => c.b.getD []) ++ raw ∧
          EndsAt userUUID {} stream.length buffers := by
  obtain ⟨blocks, hcomplete, hcontent, hpad⟩ := @padContents_eq last contents hne hcontents _ huuid.le
  refine ⟨_, hpad, fun buffers hflatten hsize hfirst hclear => ?_⟩
  have hzero : last ≠ 0 := by
    obtain rfl | rfl := hlast <;> decide
  rw [← hcontent]
  exact unpadBuffers_stream hzero huuid hcomplete hflatten hsize hfirst hclear

/-- Two blocks, the second without content and cut after its command. -/
theorem unpadBuffers_two_blocks :
    (unpadBuffers (List.replicate 16 7) {} [List.replicate 16 7 ++ [0, 0, 1, 0, 2, 65, 0, 0, 1],
        [0, 0, 0, 0, 66]]).1.flatten = [65] ++ [66] := by
  have hpad : padContents commandPaddingEnd (List.replicate 16 7)
      [⟨some [65], false, 2⟩, ⟨none, false, 0⟩] =
      .ok (List.replicate 16 7 ++ [0, 0, 1, 0, 2, 65, 0, 0, 1, 0, 0, 0, 0]) := by decide +kernel
  obtain ⟨stream, hstream, hunpad⟩ := @unpadBuffers_padContents (List.replicate 16 7) rfl
    [⟨some [65], false, 2⟩, ⟨none, false, 0⟩] (by simp) (by simp) commandPaddingEnd (.inl rfl) [66]
  obtain rfl := Except.ok.inj (hpad.symm.trans hstream)
  refine (hunpad _ rfl (by decide) (by simp) ?_).1
  intro i b hb hlength
  match i with
  | 0 => simp at hlength
  | 1 => simp at hlength
  | i + 2 => simp at hb

end V2RootCore.Vision
