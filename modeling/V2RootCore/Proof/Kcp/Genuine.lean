import V2RootCore.Kcp.System
import V2RootCore.Proof.Kcp.Sending
import V2RootCore.Proof.Kcp.Receiving

/-!
# Every segment around is one that was pushed

The first invariant of the two-party system, and the only one that needs no assumption on how many
segments are pushed: whatever sits in the sender's window, on the network or in the receiver's cache
has the payload of some push, and the number of that push truncated to 32 bits.
-/

namespace V2RootCore.Kcp

variable {α : Type} {pushed : List α}

structure IsKey (pushed : List α) (key : UInt32 × Tagged α) : Prop where
  number : key.1 = UInt32.ofNat key.2.index
  value : pushed[key.2.index]? = some key.2.value

variable {key : UInt32 × Tagged α}

theorem IsKey.index_lt (hkey : IsKey pushed key) :
    key.2.index < pushed.length :=
  (List.getElem?_eq_some_iff.mp hkey.value).1

theorem IsKey.push (hkey : IsKey pushed key) (b : α) :
    IsKey (pushed ++ [b]) key :=
  ⟨hkey.number, by rw [List.getElem?_append_left hkey.index_lt]; exact hkey.value⟩

theorem isKey_last (pushed : List α) (b : α) :
    IsKey (pushed ++ [b]) (UInt32.ofNat pushed.length, ⟨pushed.length, b⟩) :=
  ⟨rfl, by simp⟩

theorem IsKey.tagged_getElem? (hkey : IsKey pushed key) :
    (tagged pushed)[key.2.index]? = some key.2 := by
  rw [tagged, List.getElem?_mapIdx, hkey.value]
  rfl

/-! ### What a step of one end keeps

`Keeps` is what every step but a push and a read does to the two workers of an end: the sender's
window loses keys at most, and the receiver's cache gains genuine segments at most. -/

structure SendingWorker.Keeps (w w' : SendingWorker (Tagged α)) : Prop where
  keys : w'.keys ⊆ w.keys
  nextNumber : w'.nextNumber = w.nextNumber
  closed : w'.closed = w.closed

theorem SendingWorker.Keeps.refl (w : SendingWorker (Tagged α)) : w.Keeps w :=
  ⟨List.Subset.refl _, rfl, rfl⟩

theorem SendingWorker.Keeps.trans {w w' w'' : SendingWorker (Tagged α)} (h : w.Keeps w')
    (h' : w'.Keeps w'') : w.Keeps w'' :=
  ⟨List.Subset.trans h'.keys h.keys, h'.nextNumber.trans h.nextNumber, h'.closed.trans h.closed⟩

theorem SendingWorker.SameNumbering.keeps {w w' : SendingWorker (Tagged α)}
    (h : SendingWorker.SameNumbering w w') (hkeys : w'.keys ⊆ w.keys) : w.Keeps w' :=
  ⟨hkeys, h.nextNumber_eq, h.closed_eq⟩

theorem SendingWorker.keeps_processReceivingNext (w : SendingWorker (Tagged α))
    (nextNumber : UInt32) : w.Keeps (w.processReceivingNext nextNumber) := by
  refine (w.sameNumbering_processReceivingNext nextNumber).keeps ?_
  rw [SendingWorker.keys_processReceivingNext]
  exact (List.dropWhile_sublist _).subset

theorem SendingWorker.keeps_processSegment (w : SendingWorker (Tagged α)) (current : UInt32)
    (seg : AckSegment) (rto : UInt32) :
    w.Keeps (w.processSegment current seg rto).1 := by
  rcases w.processSegment_cases current seg rto with ⟨-, hsame⟩ | ⟨hnumbering, -⟩
  · rw [hsame]
    exact Keeps.refl w
  · exact hnumbering.keeps (w.keys_processSegment_subset current seg rto)

structure ReceivingWorker.Keeps (pushed : List α) (w w' : ReceivingWorker (Tagged α)) : Prop where
  lookup : ∀ id seg, w'.window.lookup id = some seg →
    w.window.lookup id = some seg ∨ id = seg.number ∧ IsKey pushed seg.key
  nextNumber : w'.nextNumber = w.nextNumber
  windowSize : w'.windowSize = w.windowSize
  leftOver : w'.leftOver = w.leftOver

theorem ReceivingWorker.Keeps.refl (pushed : List α) (w : ReceivingWorker (Tagged α)) :
    w.Keeps pushed w :=
  ⟨fun _ _ h => Or.inl h, rfl, rfl, rfl⟩

theorem ReceivingWorker.keeps_processSegment (w : ReceivingWorker (Tagged α))
    {seg : DataSegment (Tagged α)} (hseg : IsKey pushed seg.key) :
    w.Keeps pushed (w.processSegment seg) := by
  rcases w.processSegment_cases seg with hsame | ⟨-, hwindow, hnext, hleft, hsize⟩
  · rw [hsame]
    exact Keeps.refl pushed w
  · refine ⟨fun id found hfound => ?_, hnext, hsize, hleft⟩
    rw [hwindow, ReceivingWindow.lookup_set] at hfound
    split at hfound
    · rename_i hid
      cases hold : w.window.lookup seg.number with
      | some old =>
          rw [hold, Option.getD_some] at hfound
          exact Or.inl (by rw [hid, hold, hfound])
      | none =>
          rw [hold, Option.getD_none] at hfound
          obtain rfl := Option.some.inj hfound
          exact Or.inr ⟨hid, hseg⟩
    · exact Or.inl hfound

namespace Connection

variable (c : Connection (Tagged α))

theorem Moves.keeps {c c' : Connection (Tagged α)} (h : Moves c c') :
    c.sendingWorker.Keeps c'.sendingWorker := by
  obtain hsame | hclose := h.sendingWorker
  · rw [hsame]
    exact SendingWorker.Keeps.refl _
  · rw [hclose]
    exact ⟨c.sendingWorker.keys_closeWrite_subset, rfl, rfl⟩

theorem keeps_input (current : UInt32) {seg : Segment (Tagged α)}
    (hseg : ∀ data, seg = .data data → IsKey pushed data.key) :
    c.sendingWorker.Keeps (c.input current seg).sendingWorker ∧
      c.receivingWorker.Keeps pushed (c.input current seg).receivingWorker := by
  unfold input
  split
  · exact ⟨SendingWorker.Keeps.refl _, ReceivingWorker.Keeps.refl _ _⟩
  · have hoption := c.moves_handleOption seg.option
    have hreceiving := hoption.receivingWorker
    have hcommand := (c.handleOption seg.option).moves_handleCommand
    cases seg with
    | data seg =>
        refine ⟨hoption.keeps, ?_⟩
        simp only [hreceiving]
        exact c.receivingWorker.keeps_processSegment (hseg seg rfl)
    | ack seg =>
        refine ⟨hoption.keeps.trans (SendingWorker.keeps_processSegment _ _ _ _), ?_⟩
        simp only [hreceiving]
        exact ReceivingWorker.Keeps.refl _ _
    | cmdOnly seg =>
        refine ⟨(hoption.keeps.trans (hcommand seg.cmd).keeps).trans
          (SendingWorker.keeps_processReceivingNext _ _), ?_⟩
        simp only [(hcommand seg.cmd).receivingWorker, hreceiving]
        exact ⟨fun _ _ h => Or.inl h, rfl, rfl, rfl⟩

theorem flushSending_spec (current : UInt32) :
    c.sendingWorker.Keeps (c.flushSending current).1.sendingWorker ∧
      (c.flushSending current).1.receivingWorker = c.receivingWorker ∧
      ∀ seg, .data seg ∈ (c.flushSending current).2 → seg.key ∈ c.sendingWorker.keys := by
  refine ⟨?_, rfl, ?_⟩
  · refine (c.sendingWorker.sameNumbering_flush c.conversation c.outgoingOption c.config current
      c.roundTrip.timeout).keeps ?_
    rw [← c.sendingWorker.keys_flush c.conversation c.outgoingOption c.config current
      c.roundTrip.timeout]
    exact List.Subset.refl _
  · intro seg hseg
    rcases List.mem_append.mp hseg with hdata | hping
    · obtain ⟨written, hwritten, heq⟩ := List.mem_map.mp hdata
      obtain rfl := Segment.data.inj heq
      exact (c.sendingWorker.mem_flush_written _ _ _ _ _ hwritten).1
    · split at hping <;> simp at hping

theorem flushReceiving_spec (current : UInt32) :
    (c.flushReceiving current).1.sendingWorker = c.sendingWorker ∧
      (∀ pushed : List α,
        c.receivingWorker.Keeps pushed (c.flushReceiving current).1.receivingWorker) ∧
      ∀ seg, .data seg ∉ (c.flushReceiving current).2 := by
  refine ⟨rfl, fun pushed => ⟨fun _ _ h => Or.inl h, rfl, rfl, rfl⟩, ?_⟩
  intro seg hseg
  simp [flushReceiving] at hseg

end Connection

theorem ReceivingWorker.lookup_readMultiBuffer (w : ReceivingWorker (Tagged α)) :
    (∀ id seg, w.readMultiBuffer.1.window.lookup id = some seg → w.window.lookup id = some seg) ∧
      (w.leftOver = none → w.readMultiBuffer.1.leftOver = none) := by
  unfold readMultiBuffer
  split
  · exact ⟨fun _ _ h => h, fun _ => rfl⟩
  · rename_i hleft
    rw [hleft]
    refine readLoop_induction (P := fun w' _ =>
      (∀ id seg, w'.window.lookup id = some seg → w.window.lookup id = some seg) ∧
        (none = none → w'.leftOver = none)) ?_ _ w [] ⟨fun _ _ h => h, fun _ => hleft⟩
    intro w' mb window seg hw' hremove
    obtain ⟨-, hlookup⟩ := ReceivingWindow.remove_eq_some hremove
    refine ⟨fun id found hfound => hw'.1 id found ?_, hw'.2⟩
    rw [hlookup] at hfound
    split at hfound
    · cases hfound
    · exact hfound

theorem System.push_cases (st : System α) (actor : Side) (b : α) :
    st.push actor b = st ∨
      ∃ w : SendingWorker (Tagged α),
        w.nextNumber = (st.conn actor).sendingWorker.nextNumber + 1 ∧
        w.closed = (st.conn actor).sendingWorker.closed ∧
        w.keys = (st.conn actor).sendingWorker.keys ++
          [((st.conn actor).sendingWorker.nextNumber, ⟨(st.pushed actor).length, b⟩)] ∧
        st.push actor b = { st.setConn actor { st.conn actor with sendingWorker := w } with
          pushed := Function.update st.pushed actor (st.pushed actor ++ [b]) } := by
  rcases hpush : (st.conn actor).sendingWorker.push ⟨(st.pushed actor).length, b⟩ with
    ⟨w, accepted⟩
  have hcases := (st.conn actor).sendingWorker.push_cases ⟨(st.pushed actor).length, b⟩
  rw [hpush] at hcases
  rcases hcases with hrefused | ⟨haccepted, hnext, hclosed, hkeys⟩
  · refine Or.inl ?_
    simp only at hrefused
    subst hrefused
    simp only [System.push, hpush]
  · refine Or.inr ⟨w, hnext, hclosed, hkeys, ?_⟩
    simp only at haccepted
    subst haccepted
    simp only [System.push, hpush]

/-! ### The invariant -/

structure Genuine (st : System α) (side : Side) : Prop where
  nextNumber : (st.conn side).sendingWorker.nextNumber = UInt32.ofNat (st.pushed side).length
  window : ∀ key ∈ (st.conn side).sendingWorker.keys, IsKey (st.pushed side) key
  inFlight : ∀ seg, .data seg ∈ st.inbox side.peer → IsKey (st.pushed side) seg.key
  cached : ∀ id seg, (st.conn side.peer).receivingWorker.window.lookup id = some seg →
    id = seg.number ∧ IsKey (st.pushed side) seg.key
  leftOver : (st.conn side.peer).receivingWorker.leftOver = none

theorem genuine_new (conversation : UInt16) (config : Side → Config) (side : Side) :
    Genuine (System.new conversation config : System α) side := by
  refine ⟨rfl, ?_, ?_, ?_, rfl⟩
  · intro key hkey
    exact absurd hkey List.not_mem_nil
  · intro seg hseg
    exact absurd hseg List.not_mem_nil
  · intro id seg hlookup
    exact absurd hlookup (by simp [System.new, Connection.new, ReceivingWorker.new])

namespace Genuine

variable {st : System α} {side actor : Side}

theorem isKey (h : Genuine st side.peer) {position : Nat} {seg : Segment (Tagged α)}
    (hposition : (st.inbox side)[position]? = some seg) (data : DataSegment (Tagged α))
    (hdata : seg = .data data) : IsKey (st.pushed side.peer) data.key := by
  refine h.inFlight data ?_
  rw [Side.peer_peer, ← hdata]
  exact List.mem_of_getElem? hposition

theorem setConn (h : Genuine st side) {c : Connection (Tagged α)}
    (hsending : (st.conn actor).sendingWorker.Keeps c.sendingWorker)
    (hreceiving : (st.conn actor).receivingWorker.Keeps (st.pushed actor.peer) c.receivingWorker) :
    Genuine (st.setConn actor c) side := by
  rcases side.eq_or_eq_peer actor with hactor | hactor
  · subst hactor
    have hpeer : (st.setConn actor c).conn actor.peer = st.conn actor.peer := by
      simp [System.setConn]
    have hself : (st.setConn actor c).conn actor = c := by simp [System.setConn]
    refine ⟨?_, ?_, h.inFlight, ?_, ?_⟩
    · rw [hself, hsending.nextNumber]
      exact h.nextNumber
    · rw [hself]
      exact fun key hkey => h.window key (hsending.keys hkey)
    · rw [hpeer]
      exact h.cached
    · rw [hpeer]
      exact h.leftOver
  · subst hactor
    rw [Side.peer_peer] at hreceiving
    have hpeer : (st.setConn side.peer c).conn side.peer = c := by simp [System.setConn]
    have hself : (st.setConn side.peer c).conn side = st.conn side := by simp [System.setConn]
    refine ⟨?_, ?_, h.inFlight, ?_, ?_⟩
    · rw [hself]
      exact h.nextNumber
    · rw [hself]
      exact h.window
    · rw [hpeer]
      intro id seg hlookup
      rcases hreceiving.lookup id seg hlookup with hold | hnew
      · exact h.cached id seg hold
      · exact hnew
    · rw [hpeer, hreceiving.leftOver]
      exact h.leftOver

theorem emit (h : Genuine st side) {segs : List (Segment (Tagged α))}
    (hsegs : ∀ seg, .data seg ∈ segs → IsKey (st.pushed actor) seg.key) :
    Genuine (st.emit actor segs) side := by
  refine ⟨h.nextNumber, h.window, ?_, h.cached, h.leftOver⟩
  intro seg hseg
  by_cases hactor : actor = side
  · subst hactor
    simp only [System.emit, Function.update_self, List.mem_append] at hseg
    exact hseg.elim (hsegs seg) (h.inFlight seg)
  · have hpeer : side.peer ≠ actor.peer := by
      intro heq
      exact hactor (by rw [← actor.peer_peer, ← heq, side.peer_peer])
    simp only [System.emit, Function.update_of_ne hpeer] at hseg
    exact h.inFlight seg hseg

theorem push (h : Genuine st side) (b : α) : Genuine (st.push actor b) side := by
  rcases st.push_cases actor b with hsame | ⟨w, hnext, -, hkeys, hpush⟩
  · rw [hsame]
    exact h
  rw [hpush]
  rcases side.eq_or_eq_peer actor with hactor | hactor
  · subst hactor
    refine ⟨?_, ?_, ?_, ?_, ?_⟩
    · simp [System.setConn, hnext, h.nextNumber]
    · simp only [System.setConn, Function.update_self, hkeys]
      intro key hkey
      rcases List.mem_append.mp hkey with hold | hnew
      · exact (h.window key hold).push b
      · rw [List.mem_singleton.mp hnew, h.nextNumber]
        exact isKey_last _ b
    · simp only [System.setConn, Function.update_self]
      exact fun seg hseg => (h.inFlight seg hseg).push b
    · simp only [System.setConn, Function.update_self, Function.update_of_ne actor.peer_ne]
      exact fun id seg hlookup =>
        ⟨(h.cached id seg hlookup).1, (h.cached id seg hlookup).2.push b⟩
    · simpa [System.setConn] using h.leftOver
  · subst hactor
    refine ⟨?_, ?_, ?_, ?_, ?_⟩
    · simpa [System.setConn] using h.nextNumber
    · simpa [System.setConn] using h.window
    · simpa [System.setConn] using h.inFlight
    · simpa [System.setConn] using h.cached
    · simpa [System.setConn] using h.leftOver

theorem readMultiBuffer (h : Genuine st side) : Genuine (st.readMultiBuffer actor) side := by
  have hread := (st.conn actor).receivingWorker.lookup_readMultiBuffer
  rcases side.eq_or_eq_peer actor with hactor | hactor
  · subst hactor
    refine ⟨?_, ?_, h.inFlight, ?_, ?_⟩
    · simpa [System.readMultiBuffer, System.setConn] using h.nextNumber
    · simpa [System.readMultiBuffer, System.setConn] using h.window
    · simpa [System.readMultiBuffer, System.setConn] using h.cached
    · simpa [System.readMultiBuffer, System.setConn] using h.leftOver
  · subst hactor
    have hpeer : ((st.readMultiBuffer side.peer).conn side.peer).receivingWorker
        = (st.conn side.peer).receivingWorker.readMultiBuffer.1 := by
      simp [System.readMultiBuffer, System.setConn]
    refine ⟨?_, ?_, h.inFlight, ?_, ?_⟩
    · simpa [System.readMultiBuffer, System.setConn] using h.nextNumber
    · simpa [System.readMultiBuffer, System.setConn] using h.window
    · rw [hpeer]
      exact fun id seg hlookup => h.cached id seg (hread.1 id seg hlookup)
    · rw [hpeer]
      exact hread.2 h.leftOver

end Genuine

theorem genuine_step {st : System α} (h : ∀ side, Genuine st side) (action : Action α)
    (side : Side) : Genuine (st.step action) side := by
  cases action with
  | push actor b => exact (h side).push b
  | flushSending actor current =>
      obtain ⟨hsending, hreceiving, hsegs⟩ := (st.conn actor).flushSending_spec current
      refine ((h side).setConn hsending ?_).emit ?_
      · rw [hreceiving]
        exact ReceivingWorker.Keeps.refl _ _
      · exact fun seg hseg => (h actor).window seg.key (hsegs seg hseg)
  | flushReceiving actor current =>
      obtain ⟨hsending, hreceiving, hsegs⟩ := (st.conn actor).flushReceiving_spec current
      refine ((h side).setConn ?_ (hreceiving _)).emit ?_
      · rw [hsending]
        exact SendingWorker.Keeps.refl _
      · exact fun seg hseg => absurd hseg (hsegs seg)
  | ping actor => exact (h side).emit (by simp)
  | input actor current position =>
      simp only [System.step]
      split
      · exact h side
      · rename_i hposition
        obtain ⟨hsending, hreceiving⟩ := (st.conn actor).keeps_input current ((h actor.peer).isKey hposition)
        exact (h side).setConn hsending hreceiving
  | readMultiBuffer actor => exact (h side).readMultiBuffer

/-- **Every payload is the one pushed under its number.** -/
theorem genuine_run (conversation : UInt16) (config : Side → Config) (actions : List (Action α))
    (side : Side) : Genuine ((System.new conversation config).run actions) side :=
  Transition.run_induction (P := fun st => ∀ side, Genuine st side) (System.new conversation config)
    (genuine_new conversation config) (fun _ action h => genuine_step h action) actions side

end V2RootCore.Kcp
