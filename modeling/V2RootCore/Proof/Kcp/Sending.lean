import V2RootCore.Kcp.Connection

/-!
# What the sending side does to its window

The delivery guarantees see a window as the list of its keys, number and payload of each segment.
Flushing and fast acknowledgements rewrite the timing fields only and keep that list. Everything
else either appends one key or deletes some, and this module says which.
-/

namespace V2RootCore.Kcp

variable {β : Type}

def DataSegment.key (seg : DataSegment β) : UInt32 × β := (seg.number, seg.payload)

namespace SendingWindow

def keys (window : SendingWindow β) : List (UInt32 × β) := window.cache.map DataSegment.key

theorem keys_push (window : SendingWindow β) (number : UInt32) (b : β) :
    (window.push number b).keys = window.keys ++ [(number, b)] := by
  simp [keys, push, DataSegment.key]

theorem keys_clear (window : SendingWindow β) (una : UInt32) :
    (window.clear una).keys = window.keys.dropWhile fun key => !decide (key.1 ≥ una) := by
  simp only [keys, clear, List.dropWhile_map]
  rfl

variable {σ : Type} {visitor : σ → DataSegment β → σ × DataSegment β × Bool}

theorem visit_map {γ : Type} {f : DataSegment β → γ}
    (hvisitor : ∀ acc seg, f (visitor acc seg).2.1 = f seg) (acc : σ) (segs : List (DataSegment β)) :
    (visit visitor acc segs).2.map f = segs.map f := by
  induction segs generalizing acc with
  | nil => rfl
  | cons seg rest ih =>
      have hkept := hvisitor acc seg
      rcases hvisit : visitor acc seg with ⟨acc', seg', continues⟩
      rw [hvisit] at hkept
      cases continues with
      | false => simp only [visit, hvisit, List.map_cons, hkept]
      | true => simp only [visit, hvisit, List.map_cons, hkept, ih acc']

theorem visit_forall {P : DataSegment β → Prop}
    (hvisitor : ∀ acc seg, P seg → P (visitor acc seg).2.1) (acc : σ) {segs : List (DataSegment β)}
    (hsegs : ∀ seg ∈ segs, P seg) :
    ∀ seg ∈ (visit visitor acc segs).2, P seg := by
  induction segs generalizing acc with
  | nil => exact hsegs
  | cons seg rest ih =>
      obtain ⟨hseg, hrest⟩ := List.forall_mem_cons.mp hsegs
      have hvisited := hvisitor acc seg hseg
      rcases hvisit : visitor acc seg with ⟨acc', seg', continues⟩
      rw [hvisit] at hvisited
      cases continues with
      | false => simpa only [visit, hvisit] using List.forall_mem_cons.mpr ⟨hvisited, hrest⟩
      | true => simpa only [visit, hvisit] using List.forall_mem_cons.mpr ⟨hvisited, ih acc' hrest⟩

theorem visit_acc {P : σ → Prop} (segs : List (DataSegment β))
    (hvisitor : ∀ acc, ∀ seg ∈ segs, P acc → P (visitor acc seg).1) (acc : σ) (hacc : P acc) :
    P (visit visitor acc segs).1 := by
  induction segs generalizing acc with
  | nil => exact hacc
  | cons seg rest ih =>
      have hnext := hvisitor acc seg List.mem_cons_self hacc
      rcases hvisit : visitor acc seg with ⟨acc', seg', continues⟩
      rw [hvisit] at hnext
      cases continues with
      | false => simpa only [visit, hvisit] using hnext
      | true =>
          simp only [visit, hvisit]
          exact ih (fun acc seg hseg => hvisitor acc seg (List.mem_cons_of_mem _ hseg)) acc' hnext

theorem keys_handleFastAck (window : SendingWindow β) (number rto : UInt32) :
    (window.handleFastAck number rto).keys = window.keys := by
  refine visit_map (fun acc seg => ?_) () window.cache
  unfold handleFastAckSegment
  split
  · rfl
  · split <;> rfl

section Flush

variable (write : DataSegment β → DataSegment β)

theorem keys_flush (hwrite : ∀ seg, (write seg).key = seg.key) (window : SendingWindow β)
    (current rto maxInFlightSize : UInt32) :
    (window.flush write current rto maxInFlightSize).1.keys = window.keys := by
  unfold flush
  split
  · rfl
  · refine visit_map (fun acc seg => ?_) _ window.cache
    unfold flushSegment
    split
    · rfl
    · rw [hwrite]
      rfl

theorem mem_flush_written (hwrite : ∀ seg, (write seg).key = seg.key) (window : SendingWindow β)
    (current rto maxInFlightSize : UInt32) :
    ∀ seg ∈ (window.flush write current rto maxInFlightSize).2.1,
      seg.key ∈ window.keys ∧ ∃ original, seg = write original := by
  unfold flush
  split
  · simp
  · refine visit_acc (P := fun acc : FlushState β => ∀ seg ∈ acc.written,
      seg.key ∈ window.keys ∧ ∃ original, seg = write original) window.cache ?_ _ (by simp)
    intro acc seg hseg hacc
    unfold flushSegment
    split
    · exact hacc
    · intro sent hsent
      rcases List.mem_append.mp hsent with hold | hnew
      · exact hacc sent hold
      · obtain rfl := List.mem_singleton.mp hnew
        refine ⟨?_, _, rfl⟩
        rw [hwrite]
        exact List.mem_map.mpr ⟨seg, hseg, rfl⟩

end Flush

theorem removeFrom_eq_some {number : UInt32} {segs rest : List (DataSegment β)}
    {seg : DataSegment β} (hremove : removeFrom number segs = some (seg, rest)) :
    seg.number = number ∧ ∃ before after, segs = before ++ seg :: after ∧ rest = before ++ after := by
  induction segs generalizing rest with
  | nil => simp [removeFrom] at hremove
  | cons head tail ih =>
      simp only [removeFrom] at hremove
      split at hremove
      · cases hremove
      split at hremove
      · rename_i hnumber
        obtain ⟨rfl, rfl⟩ := Prod.mk.inj (Option.some.inj hremove)
        exact ⟨hnumber, [], tail, rfl, rfl⟩
      · obtain ⟨⟨removed, tail'⟩, htail, hpair⟩ := Option.map_eq_some_iff.mp hremove
        obtain ⟨rfl, rfl⟩ := Prod.mk.inj hpair
        obtain ⟨hnumber, before, after, rfl, rfl⟩ := ih htail
        exact ⟨hnumber, head :: before, after, rfl, rfl⟩

end SendingWindow

namespace SendingWorker

variable (w : SendingWorker β)

/-- The keys of the window a worker keeps. -/
def keys (w : SendingWorker β) : List (UInt32 × β) := w.window.keys

structure SameNumbering (w w' : SendingWorker β) : Prop where
  nextNumber_eq : w'.nextNumber = w.nextNumber
  closed_eq : w'.closed = w.closed

theorem SameNumbering.refl : SameNumbering w w := ⟨rfl, rfl⟩

theorem SameNumbering.trans {w w' w'' : SendingWorker β} (h : SameNumbering w w')
    (h' : SameNumbering w' w'') : SameNumbering w w'' :=
  ⟨h'.nextNumber_eq.trans h.nextNumber_eq, h'.closed_eq.trans h.closed_eq⟩

theorem push_cases (b : β) :
    (w.push b).2 = false ∨
      (w.push b).2 = true ∧ (w.push b).1.nextNumber = w.nextNumber + 1 ∧
        (w.push b).1.closed = w.closed ∧ (w.push b).1.keys = w.keys ++ [(w.nextNumber, b)] := by
  unfold push
  split
  · exact Or.inl rfl
  split
  · exact Or.inl rfl
  · exact Or.inr ⟨rfl, rfl, rfl, SendingWindow.keys_push w.window w.nextNumber b⟩

theorem keys_processReceivingNext (nextNumber : UInt32) :
    (w.processReceivingNext nextNumber).keys
      = w.keys.dropWhile fun key => !decide (key.1 ≥ nextNumber) :=
  SendingWindow.keys_clear w.window nextNumber

theorem sameNumbering_processReceivingNext (nextNumber : UInt32) :
    SameNumbering w (w.processReceivingNext nextNumber) := ⟨rfl, rfl⟩

theorem keys_closeWrite_subset : w.closeWrite.keys ⊆ w.keys := by
  intro key hkey
  rw [keys, closeWrite, SendingWindow.keys_clear] at hkey
  exact (List.dropWhile_sublist _).subset hkey

/-- The segment an acknowledged number takes out of the window, if it takes one. -/
def ackRemoves (w : SendingWorker β) (number : UInt32) : Option (DataSegment β) :=
  if w.ackInRange number then
    (SendingWindow.removeFrom number w.window.cache).map Prod.fst
  else none

theorem sameNumbering_processAck (number : UInt32) :
    SameNumbering w (w.processAck number).1 := by
  unfold processAck
  split
  · split <;> exact ⟨rfl, rfl⟩
  · exact SameNumbering.refl w

theorem processAck_cases (number : UInt32) :
    (w.processAck number).1.keys = w.keys ∨
      ∃ seg before after, w.ackRemoves number = some seg ∧ seg.number = number ∧
        w.keys = before ++ seg.key :: after ∧
        (w.processAck number).1.keys = before ++ after := by
  by_cases hrange : w.ackInRange number = true
  · cases hremove : SendingWindow.removeFrom number w.window.cache with
    | none => simp [processAck, hrange, SendingWindow.remove, hremove]
    | some found =>
        obtain ⟨seg, rest⟩ := found
        obtain ⟨hnumber, before, after, hcache, hrest⟩ := SendingWindow.removeFrom_eq_some hremove
        refine Or.inr ⟨seg, before.map DataSegment.key, after.map DataSegment.key, ?_, hnumber,
          ?_, ?_⟩
        · simp [ackRemoves, hrange, hremove]
        · simp [keys, SendingWindow.keys, hcache]
        · simp only [processAck, hrange, if_true, SendingWindow.remove, hremove]
          rw [← List.map_append, ← hrest]
          rfl
  · simp [processAck, hrange]

theorem keys_processAck_subset (number : UInt32) :
    (w.processAck number).1.keys ⊆ w.keys := by
  rcases w.processAck_cases number with hsame | ⟨seg, before, after, -, -, hkeys, hkeys'⟩
  · exact hsame ▸ List.Subset.refl _
  · intro key hkey
    rw [hkeys'] at hkey
    rw [hkeys]
    rcases List.mem_append.mp hkey with hbefore | hafter
    · exact List.mem_append_left _ hbefore
    · exact List.mem_append_right _ (List.mem_cons_of_mem _ hafter)

def processAckList (w : SendingWorker β) (acks : List UInt32) : SendingWorker β :=
  acks.foldl (fun w ack => (w.processAck ack).1) w

theorem processAcks_fst (acks : List UInt32) (w : SendingWorker β) (maxack : UInt32)
    (maxackRemoved : Bool) :
    (w.processAcks maxack maxackRemoved acks).1 = w.processAckList acks := by
  induction acks generalizing w maxack maxackRemoved with
  | nil => rfl
  | cons ack rest ih =>
      simp only [processAcks]
      split
      · exact ih _ _ _
      · exact ih _ _ _

theorem sameNumbering_processAckList (acks : List UInt32) (w : SendingWorker β) :
    SameNumbering w (w.processAckList acks) := by
  induction acks generalizing w with
  | nil => exact SameNumbering.refl w
  | cons ack rest ih => exact (w.sameNumbering_processAck ack).trans (ih _)

theorem keys_processAckList_subset (acks : List UInt32) (w : SendingWorker β) :
    (w.processAckList acks).keys ⊆ w.keys := by
  induction acks generalizing w with
  | nil => exact List.Subset.refl _
  | cons ack rest ih => exact List.Subset.trans (ih _) (w.keys_processAck_subset ack)

/-- The worker `processSegment` has left after the cumulative acknowledgement. -/
def afterReceivingNext (w : SendingWorker β) (seg : AckSegment) : SendingWorker β :=
  processReceivingNext (if w.remoteNextNumber < seg.receivingWindow then
    { w with remoteNextNumber := seg.receivingWindow } else w) seg.receivingNext

theorem keys_afterReceivingNext (seg : AckSegment) :
    (w.afterReceivingNext seg).keys
      = w.keys.dropWhile fun key => !decide (key.1 ≥ seg.receivingNext) := by
  rw [afterReceivingNext, keys_processReceivingNext]
  split <;> rfl

theorem sameNumbering_afterReceivingNext (seg : AckSegment) :
    SameNumbering w (w.afterReceivingNext seg) := by
  unfold afterReceivingNext
  split <;> exact ⟨rfl, rfl⟩

theorem processSegment_eq (current : UInt32) (seg : AckSegment) (rto : UInt32) :
    w.processSegment current seg rto =
      if w.closed then (w, none)
      else if seg.isEmpty then (w.afterReceivingNext seg, none)
      else
        let acks := (w.afterReceivingNext seg).processAcks 0 false seg.numberList
        if acks.2.2 then
          ({ acks.1 with window := acks.1.window.handleFastAck acks.2.1 rto },
            if current - seg.timestamp < 10000 then some (current - seg.timestamp) else none)
        else (acks.1, none) := rfl

theorem processSegment_cases (current : UInt32) (seg : AckSegment) (rto : UInt32) :
    w.closed = true ∧ (w.processSegment current seg rto).1 = w ∨
      SameNumbering w (w.processSegment current seg rto).1 ∧
        (w.processSegment current seg rto).1.keys
          = ((w.afterReceivingNext seg).processAckList seg.numberList).keys := by
  have hfirst := w.sameNumbering_afterReceivingNext seg
  have hlist := hfirst.trans (sameNumbering_processAckList seg.numberList _)
  rw [processSegment_eq]
  by_cases hclosed : w.closed = true
  · rw [if_pos hclosed]
    exact Or.inl ⟨hclosed, rfl⟩
  rw [if_neg hclosed]
  right
  by_cases hempty : seg.isEmpty = true
  · have hnil : seg.numberList = [] := by simpa [AckSegment.isEmpty] using hempty
    rw [if_pos hempty, hnil]
    exact ⟨hfirst, rfl⟩
  · rw [if_neg hempty]
    dsimp only
    rw [processAcks_fst]
    split
    · exact ⟨⟨hlist.nextNumber_eq, hlist.closed_eq⟩, SendingWindow.keys_handleFastAck _ _ _⟩
    · exact ⟨hlist, rfl⟩

theorem keys_processSegment_subset (current : UInt32) (seg : AckSegment) (rto : UInt32) :
    (w.processSegment current seg rto).1.keys ⊆ w.keys := by
  rcases w.processSegment_cases current seg rto with ⟨-, hsame⟩ | ⟨-, hkeys⟩
  · rw [hsame]
    exact List.Subset.refl _
  · rw [hkeys]
    refine List.Subset.trans (keys_processAckList_subset _ _) ?_
    rw [keys_afterReceivingNext]
    exact (List.dropWhile_sublist _).subset

section Flush

variable (conv : UInt16) (option : SegmentOption) (config : Config)
  (current rto : UInt32)

theorem keys_onPacketLoss (lossRate : UInt32) :
    (w.onPacketLoss config rto lossRate).keys = w.keys := by
  unfold onPacketLoss
  split <;> rfl

theorem sameNumbering_onPacketLoss (lossRate : UInt32) :
    SameNumbering w (w.onPacketLoss config rto lossRate) := by
  unfold onPacketLoss
  split <;> exact ⟨rfl, rfl⟩

theorem keys_flush : (w.flush conv option config current rto).1.keys = w.keys := by
  unfold flush
  split
  · rfl
  split
  · rfl
  · have hkeys := SendingWindow.keys_flush (w.write conv option) (fun _ => rfl) w.window current
      rto (w.congestionWindow config)
    simp only
    split
    · rw [keys_onPacketLoss]
      exact hkeys
    · exact hkeys

theorem sameNumbering_flush : SameNumbering w (w.flush conv option config current rto).1 := by
  unfold flush
  split
  · exact SameNumbering.refl w
  split
  · exact ⟨rfl, rfl⟩
  · simp only
    split
    · have hloss := sameNumbering_onPacketLoss
        { w with
          window := (w.window.flush (w.write conv option) current rto
            (w.congestionWindow config)).1
          firstUnacknowledgedUpdated := false } config rto
      exact ⟨(hloss _).nextNumber_eq, (hloss _).closed_eq⟩
    · exact ⟨rfl, rfl⟩

theorem mem_flush_written {seg : DataSegment β}
    (hseg : seg ∈ (w.flush conv option config current rto).2.1) :
    seg.key ∈ w.keys ∧ seg.conv = conv ∧ seg.option = option := by
  unfold flush at hseg
  split at hseg
  · simp at hseg
  split at hseg
  · simp at hseg
  · obtain ⟨hkey, original, horiginal⟩ := SendingWindow.mem_flush_written
      (w.write conv option) (fun _ => rfl) w.window current rto
      (w.congestionWindow config) seg hseg
    exact ⟨hkey, by rw [horiginal]; rfl, by rw [horiginal]; rfl⟩

end Flush

end SendingWorker

namespace Connection

/-- What a change of the state does to a connection: it may close the window for sending. -/
structure Moves (c c' : Connection β) : Prop where
  sendingWorker : c'.sendingWorker = c.sendingWorker ∨ c'.sendingWorker = c.sendingWorker.closeWrite
  receivingWorker : c'.receivingWorker = c.receivingWorker
  roundTrip : c'.roundTrip = c.roundTrip

theorem Moves.keys_subset {c c' : Connection β} (h : Moves c c') :
    c'.sendingWorker.keys ⊆ c.sendingWorker.keys := by
  obtain hsame | hclose := h.sendingWorker
  · rw [hsame]
    exact List.Subset.refl _
  · rw [hclose]
    exact c.sendingWorker.keys_closeWrite_subset

variable (c : Connection β)

theorem moves_refl : Moves c c := ⟨.inl rfl, rfl, rfl⟩

theorem moves_setState (state : State) : Moves c (c.setState state) := by
  cases state <;> first | exact ⟨.inl rfl, rfl, rfl⟩ | exact ⟨.inr rfl, rfl, rfl⟩

theorem moves_handleOption (opt : SegmentOption) : Moves c (c.handleOption opt) := by
  unfold handleOption onPeerClosed
  split
  · split <;> first | exact c.moves_setState _ | exact c.moves_refl
  · exact c.moves_refl

theorem moves_handleCommand (cmd : Command) : Moves c (c.handleCommand cmd) := by
  unfold handleCommand
  split
  · split <;> first | exact c.moves_setState _ | exact c.moves_refl
  · exact c.moves_refl

end Connection

end V2RootCore.Kcp
