import V2RootCore.Proof.Kcp.Genuine

/-!
# What comes out is what went in, in order

As long as numbers are not reused, the number under which a segment is cached determines its
position among the pushes. A read hands out the segment cached under `nextNumber`, so the payloads
handed out are the first `nextNumber` pushes. Copies of older segments may well enter the cache when
`nextNumber` comes close to `2^32`; they sit below `nextNumber` and are never read.
-/

namespace V2RootCore.Kcp

variable {α : Type}

@[simp]
theorem tagged_length (pushed : List α) : (tagged pushed).length = pushed.length := by
  simp [tagged]

theorem tagged_push (pushed : List α) (b : α) :
    tagged (pushed ++ [b]) = tagged pushed ++ [⟨pushed.length, b⟩] := by
  simp [tagged, List.mapIdx_append]

theorem map_value_tagged (pushed : List α) : (tagged pushed).map Tagged.value = pushed := by
  refine List.ext_getElem? fun i => ?_
  rw [tagged, List.getElem?_map, List.getElem?_mapIdx, Option.map_map]
  exact congrFun Option.map_id_fun _

/-- `delivered` is what a receiver about to read `nextNumber` should have handed out. -/
structure InOrder (pushed : List α) (delivered : List (Tagged α)) (nextNumber : UInt32) : Prop where
  delivered_eq : delivered = (tagged pushed).take nextNumber.toNat
  nextNumber_le : nextNumber.toNat ≤ pushed.length

variable {pushed : List α} {delivered : List (Tagged α)} {nextNumber : UInt32}

theorem InOrder.push (h : InOrder pushed delivered nextNumber) (b : α) :
    InOrder (pushed ++ [b]) delivered nextNumber := by
  refine ⟨?_, ?_⟩
  · rw [tagged_push, List.take_append_of_le_length (by simpa using h.nextNumber_le)]
    exact h.delivered_eq
  · have := h.nextNumber_le
    simp only [List.length_append, List.length_singleton]
    omega

theorem InOrder.next (h : InOrder pushed delivered nextNumber) (hlength : pushed.length < 2 ^ 32)
    {payload : Tagged α} (hkey : IsKey pushed (nextNumber, payload)) :
    InOrder pushed (delivered ++ [payload]) (nextNumber + 1) := by
  have hindex : payload.index < pushed.length := hkey.index_lt
  have hnumber : nextNumber.toNat = payload.index := by
    have hnext : nextNumber = UInt32.ofNat payload.index := hkey.number
    rw [hnext, UInt32.toNat_ofNat']
    exact Nat.mod_eq_of_lt (by omega)
  have hsucc : (nextNumber + 1).toNat = nextNumber.toNat + 1 := by
    rw [UInt32.toNat_add]
    exact Nat.mod_eq_of_lt (by simp; omega)
  refine ⟨?_, by omega⟩
  rw [hsucc, List.take_add_one, ← h.delivered_eq, hnumber]
  have hpayload := hkey.tagged_getElem?
  simp only at hpayload
  rw [hpayload]
  rfl

/-- The delivery invariant from `side` to its peer: nothing is lost, duplicated or swapped until a
number is reused. -/
def Delivers (st : System α) (side : Side) : Prop :=
  (st.pushed side).length < 2 ^ 32 →
    InOrder (st.pushed side) (st.delivered side.peer)
      (st.conn side.peer).receivingWorker.nextNumber

theorem delivers_readMultiBuffer {st : System α} {side : Side} (hgenuine : Genuine st side)
    (h : Delivers st side) : Delivers (st.readMultiBuffer side.peer) side := by
  intro hlength
  have hstart := h hlength
  have hread : InOrder (st.pushed side)
      (st.delivered side.peer ++ (st.conn side.peer).receivingWorker.readMultiBuffer.2)
      (st.conn side.peer).receivingWorker.readMultiBuffer.1.nextNumber := by
    have hleft := hgenuine.leftOver
    unfold ReceivingWorker.readMultiBuffer
    rw [hleft]
    -- a round of the loop needs the cache to be genuine, so that is carried along
    refine (ReceivingWorker.readLoop_induction (P := fun w mb =>
      (∀ id seg, w.window.lookup id = some seg → id = seg.number ∧ IsKey (st.pushed side) seg.key) ∧
        InOrder (st.pushed side) (st.delivered side.peer ++ mb) w.nextNumber) ?_ _ _ []
      ⟨hgenuine.cached, by simpa using hstart⟩).2
    intro w mb window seg hw hremove
    obtain ⟨hfound, hlookup⟩ := ReceivingWindow.remove_eq_some hremove
    obtain ⟨hid, hkey⟩ := hw.1 _ _ hfound
    refine ⟨fun id seg hid => hw.1 id seg ?_, ?_⟩
    · rw [hlookup] at hid
      split at hid
      · cases hid
      · exact hid
    · rw [← List.append_assoc]
      exact hw.2.next hlength (hid ▸ hkey)
  simpa [System.readMultiBuffer, System.setConn] using hread

theorem Delivers.of_conn {st st' : System α} {side : Side} (h : Delivers st side)
    (hpushed : st'.pushed side = st.pushed side)
    (hdelivered : st'.delivered side.peer = st.delivered side.peer)
    (hnext : (st'.conn side.peer).receivingWorker.nextNumber
      = (st.conn side.peer).receivingWorker.nextNumber) : Delivers st' side := by
  intro hlength
  rw [hpushed] at hlength
  rw [hpushed, hdelivered, hnext]
  exact h hlength

theorem nextNumber_setConn (st : System α) (actor side : Side) (c : Connection (Tagged α))
    (hnext : c.receivingWorker.nextNumber = (st.conn actor).receivingWorker.nextNumber) :
    ((st.setConn actor c).conn side).receivingWorker.nextNumber
      = (st.conn side).receivingWorker.nextNumber := by
  by_cases hside : side = actor
  · subst hside
    simp [System.setConn, hnext]
  · simp [System.setConn, Function.update_of_ne hside]

theorem delivers_step {st : System α} (hgenuine : ∀ side, Genuine st side) {side : Side}
    (h : Delivers st side) (action : Action α) : Delivers (st.step action) side := by
  cases action with
  | push actor b =>
      rcases st.push_cases actor b with hsame | ⟨w, -, -, -, hpush⟩
      · simpa only [System.step, hsame] using h
      · intro hlength
        simp only [System.step, hpush] at hlength ⊢
        rw [nextNumber_setConn st actor side.peer
          { st.conn actor with sendingWorker := w } rfl]
        by_cases hactor : side = actor
        · subst hactor
          simp only [Function.update_self, List.length_append, List.length_singleton] at hlength ⊢
          exact (h (by omega)).push b
        · simp only [Function.update_of_ne hactor] at hlength ⊢
          exact h hlength
  | flushSending actor current =>
      exact h.of_conn rfl rfl (nextNumber_setConn st actor side.peer _ rfl)
  | flushReceiving actor current =>
      exact h.of_conn rfl rfl (nextNumber_setConn st actor side.peer _ rfl)
  | ping actor => exact h.of_conn rfl rfl rfl
  | input actor current position =>
      simp only [System.step]
      split
      · exact h
      · rename_i hposition
        exact h.of_conn rfl rfl (nextNumber_setConn st actor side.peer _
          ((st.conn actor).keeps_input current ((hgenuine actor.peer).isKey hposition)).2.nextNumber)
  | readMultiBuffer actor =>
      rcases side.eq_or_eq_peer actor with hactor | hactor
      · subst hactor
        refine h.of_conn rfl ?_ ?_
        · simp [System.step, System.readMultiBuffer]
        · simp [System.step, System.readMultiBuffer, System.setConn]
      · subst hactor
        exact delivers_readMultiBuffer (hgenuine side) h

theorem delivers_run (conversation : UInt16) (config : Side → Config)
    (actions : List (Action α)) (side : Side) :
    Delivers ((System.new conversation config).run actions) side := by
  refine (Transition.run_induction (P := fun st => (∀ side, Genuine st side) ∧ Delivers st side)
    (System.new conversation config) ⟨genuine_new conversation config, ?_⟩ ?_ actions).2
  · exact fun _ => ⟨rfl, Nat.zero_le _⟩
  · exact fun st action h => ⟨genuine_step h.1 action, delivers_step h.1 h.2 action⟩

/-- **Delivery safety.** Over any run of the two ends and any behaviour of the network, the payloads
handed out by one end are the first `nextNumber` payloads pushed into the other, in that order. The
number of pushes has to stay below the point where numbers are reused; it may come closer to it than
the receive window is wide. -/
theorem delivered_eq_take_pushed (conversation : UInt16) (config : Side → Config)
    (actions : List (Action α)) (side : Side)
    (hpushed : (((System.new conversation config).run actions).pushed side).length < 2 ^ 32) :
    let st := (System.new conversation config).run actions
    let nextNumber := (st.conn side.peer).receivingWorker.nextNumber.toNat
    (st.delivered side.peer).map Tagged.value = (st.pushed side).take nextNumber ∧
      (st.delivered side.peer).length = nextNumber := by
  intro st nextNumber
  obtain ⟨hdelivered, hle⟩ := delivers_run conversation config actions side hpushed
  refine ⟨?_, ?_⟩
  · rw [hdelivered, List.map_take, map_value_tagged]
  · rw [hdelivered, List.length_take, tagged_length]
    exact Nat.min_eq_left hle

def deliveryRun : List (Action Nat) :=
  [.push .client 7, .push .client 8, .flushSending .client 0, .input .server 1 1,
    .readMultiBuffer .server, .input .server 2 0, .input .server 3 0, .readMultiBuffer .server]

theorem deliveryRun_delivered :
    let st := (System.new 1 fun _ => {}).run deliveryRun
    (st.pushed .client).length < 2 ^ 32 ∧ (st.delivered .server).map Tagged.value = [7, 8] ∧
      ((st.delivered .server).map Tagged.value
          = (st.pushed .client).take (st.conn .server).receivingWorker.nextNumber.toNat ∧
        (st.delivered .server).length = (st.conn .server).receivingWorker.nextNumber.toNat) :=
  ⟨by decide +kernel, by decide +kernel,
    delivered_eq_take_pushed 1 (fun _ => {}) deliveryRun .client (by decide +kernel)⟩

end V2RootCore.Kcp
