import V2RootCore.Crypto.Auth
import V2RootCore.Proof.Buf.Reader
import V2RootCore.Proof.Go.Io

/-!
# Chunks are read as they were written

What a writer puts on the wire is a row of chunks, each of which takes the states of size parser,
padding generator and cipher from one value to the next. A reader that starts with the states of the
writer goes through the same values, whether it has to stop in the middle of a chunk or not.
-/

namespace V2RootCore.Crypto

open Go Buf

section Wire

variable {τ : Type}

inductive Wire (Chunk : τ → Bytes → Bytes → τ → Prop) : τ → List Bytes → Bytes → τ → Prop
  | nil (st : τ) : Wire Chunk st [] [] st
  | cons {st st' last : τ} {payload chunk rest : Bytes} {payloads : List Bytes}
      (hchunk : Chunk st payload chunk st') (hrest : Wire Chunk st' payloads rest last) :
      Wire Chunk st (payload :: payloads) (chunk ++ rest) last

variable {Chunk : τ → Bytes → Bytes → τ → Prop}

theorem Wire.single {st st' : τ} {payload chunk : Bytes} (hchunk : Chunk st payload chunk st') :
    Wire Chunk st [payload] chunk st' := by
  simpa using Wire.cons hchunk (.nil st')

theorem Wire.append {st st' last : τ} {payloads payloads' : List Bytes} {bytes bytes' : Bytes}
    (h : Wire Chunk st payloads bytes st') (h' : Wire Chunk st' payloads' bytes' last) :
    Wire Chunk st (payloads ++ payloads') (bytes ++ bytes') last := by
  induction h with
  | nil => exact h'
  | cons hchunk hrest ih =>
      rw [List.cons_append, List.append_assoc]
      exact .cons hchunk (ih h')

end Wire

/-- The payloads before the first empty one, which ends the stream. -/
def untilEmpty (payloads : List Bytes) : List Bytes := payloads.takeWhile (· ≠ [])

theorem untilEmpty_cons {payload : Bytes} (hpayload : payload ≠ []) (payloads : List Bytes) :
    untilEmpty (payload :: payloads) = payload :: untilEmpty payloads :=
  List.takeWhile_cons_of_pos (by simpa using hpayload)

theorem untilEmpty_append {payloads : List Bytes} (hpayloads : ∀ payload ∈ payloads, payload ≠ [])
    (payloads' : List Bytes) : untilEmpty (payloads ++ payloads') = payloads ++ untilEmpty payloads' :=
  List.takeWhile_append_of_pos (by simpa using hpayloads)

theorem untilEmpty_eq_self {payloads : List Bytes} (hpayloads : ∀ payload ∈ payloads, payload ≠ []) :
    untilEmpty payloads = payloads := by
  simpa [untilEmpty] using untilEmpty_append hpayloads []

inductive Cut : Bytes → List Bytes → Prop
  | empty : Cut [] [[]]
  | data {payloads : List Bytes} (hne : payloads ≠ []) (hpayloads : ∀ payload ∈ payloads, payload ≠ []) :
      Cut payloads.flatten payloads

theorem Cut.of_flatten {b : Bytes} {payloads : List Bytes} (hb : b ≠ [])
    (hpayloads : ∀ payload ∈ payloads, payload ≠ []) (hflatten : payloads.flatten = b) :
    Cut b payloads := by
  subst hflatten
  refine .data ?_ hpayloads
  rintro rfl
  exact hb rfl

theorem Cut.untilEmpty_append {b : Bytes} {payloads : List Bytes} (hcut : Cut b payloads)
    {writes payloads' : List Bytes}
    (hflatten : (untilEmpty payloads').flatten = (untilEmpty writes).flatten)
    (hmem : [] ∈ payloads' ↔ [] ∈ writes) :
    (untilEmpty (payloads ++ payloads')).flatten = (untilEmpty (b :: writes)).flatten ∧
      ([] ∈ payloads ++ payloads' ↔ [] ∈ b :: writes) := by
  cases hcut with
  | empty => simp [untilEmpty]
  | data hne hpayloads =>
      have hb : payloads.flatten ≠ [] := by
        obtain ⟨payload, hpayload⟩ := List.exists_mem_of_ne_nil _ hne
        intro hnil
        exact hpayloads _ hpayload (List.flatten_eq_nil_iff.mp hnil _ hpayload)
      refine ⟨?_, ?_⟩
      · rw [Crypto.untilEmpty_append hpayloads, untilEmpty_cons hb, List.flatten_append, hflatten,
          List.flatten_cons]
      · have hnot : [] ∉ payloads := fun hnil => hpayloads _ hnil rfl
        simp only [List.mem_append, List.mem_cons, hnot, Ne.symm hb, false_or, hmem]

namespace AEADAuthenticator

/-- Every nonce has the size that the cipher asks for. -/
def Ready (v : AEADAuthenticator) : Prop :=
  ∀ count, (v.nonceGenerator.bytes count).length = v.aead.nonceSize

theorem nextNonce_of_ready {v : AEADAuthenticator} (hready : v.Ready) :
    v.nextNonce = (.ok v.nonceGenerator.next.1, { v with nonceGenerator := v.nonceGenerator.next.2 }) := by
  simp [nextNonce, BytesGenerator.next, hready v.nonceGenerator.calls]

theorem nextAdditionalData_aead (v : AEADAuthenticator) :
    v.nextAdditionalData.2.aead = v.aead ∧
      v.nextAdditionalData.2.nonceGenerator = v.nonceGenerator := by
  unfold nextAdditionalData
  cases v.additionalDataGenerator <;> simp

theorem sealBytes_spec {v : AEADAuthenticator} (hready : v.Ready) (b : Bytes) :
    ∃ sealed v', v.sealBytes b = (.ok sealed, v') ∧ v.openBytes sealed = (.ok b, v') ∧
      sealed.length = b.length + v.aead.overhead ∧ v'.Ready ∧ v'.aead = v.aead ∧
      v'.nonceGenerator = v.nonceGenerator.next.2 := by
  obtain ⟨haead, hgenerator⟩ :=
    nextAdditionalData_aead { v with nonceGenerator := v.nonceGenerator.next.2 }
  refine ⟨_, _, by rw [sealBytes, nextNonce_of_ready hready], ?_, ?_, ?_, haead, hgenerator⟩
  · rw [openBytes, nextNonce_of_ready hready]
    simp only [haead, Cipher.openBytes_sealBytes]
  · rw [Cipher.length_sealBytes, haead]
  · intro count
    rw [hgenerator, haead]
    exact hready count

end AEADAuthenticator

variable {σ ρ : Type}

structure Lawful (sizeParser : ChunkSizeParser σ) (padding : Option (PaddingLengthGenerator σ))
    (valid : σ → Prop) : Prop where
  sizeBytes_pos : 0 < sizeParser.sizeBytes
  decode_encode : ∀ st size, valid st → ∃ field st', sizeParser.encode st size = (.ok field, st') ∧
    sizeParser.decode st field = (.ok size, st') ∧ field.length = sizeParser.sizeBytes ∧ valid st'
  valid_nextPadding : ∀ st, valid st → valid (nextPadding padding st).2
  nextPadding_le : ∀ st, (nextPadding padding st).1.toNat ≤ maxPadding padding

inductive SealedChunk (sizeParser : ChunkSizeParser σ) (padding : Option (PaddingLengthGenerator σ)) :
    AEADAuthenticator × σ → Bytes → Bytes → AEADAuthenticator × σ → Prop
  | intro {auth auth' : AEADAuthenticator} {st st' : σ} {payload field sealed paddingBytes : Bytes}
      (hfield : field.length = sizeParser.sizeBytes)
      (hdecode : sizeParser.decode (nextPadding padding st).2 field =
        (.ok (UInt16.ofNat (payload.length + auth.aead.overhead + paddingBytes.length)), st'))
      (hopen : auth.openBytes sealed = (.ok payload, auth'))
      (hsealed : sealed.length = payload.length + auth.aead.overhead)
      (hpadding : paddingBytes.length = (nextPadding padding st).1.toNat)
      (hfits : payload.length + auth.aead.overhead + paddingBytes.length ≤ Buf.size) :
      SealedChunk sizeParser padding (auth, st) payload (field ++ (sealed ++ paddingBytes)) (auth', st')
  | stop {auth auth' : AEADAuthenticator} {st st' : σ} {field rest : Bytes}
      (hfield : field.length = sizeParser.sizeBytes)
      (hdecode : sizeParser.decode (nextPadding padding st).2 field =
        (.ok (UInt16.ofNat auth.aead.overhead + (nextPadding padding st).1), st')) :
      SealedChunk sizeParser padding (auth, st) [] (field ++ rest) (auth', st')

namespace AuthenticationWriter

variable (sizeParser : ChunkSizeParser σ) (padding : Option (PaddingLengthGenerator σ))
  (valid : σ → Prop) (aead : Cipher)

structure Good (w : AuthenticationWriter σ) : Prop where
  sizeParser_eq : w.sizeParser = sizeParser
  padding_eq : w.padding = padding
  aead_eq : w.auth.aead = aead
  valid_state : valid w.state
  ready : w.auth.Ready

variable {sizeParser padding valid aead} {w : AuthenticationWriter σ}

/-- The size that `seal` checks. -/
def totalSize (w : AuthenticationWriter σ) (b : Bytes) : Nat :=
  w.sizeParser.sizeBytes + (b.length + w.auth.aead.overhead) + (nextPadding w.padding w.state).1.toNat

theorem sealChunk_of_fits (hlawful : Lawful sizeParser padding valid)
    (hgood : w.Good sizeParser padding valid aead) {b : Bytes} (hfits : w.totalSize b ≤ size) :
    ∃ chunk w', w.sealChunk b = (.ok chunk, w') ∧ w'.Good sizeParser padding valid aead ∧
      w'.transferType = w.transferType ∧
      SealedChunk sizeParser padding (w.auth, w.state) b chunk (w'.auth, w'.state) := by
  obtain ⟨rfl, rfl, rfl, hvalid, hready⟩ := hgood
  rw [totalSize] at hfits
  obtain ⟨field, state', hencode, hdecode, hfield, hvalid'⟩ := hlawful.decode_encode
    (nextPadding w.padding w.state).2
    (UInt16.ofNat (b.length + w.auth.aead.overhead + (nextPadding w.padding w.state).1.toNat))
    (hlawful.valid_nextPadding _ hvalid)
  obtain ⟨sealed, auth', hseal, hopen, hsealed, hready', haead, -⟩ :=
    AEADAuthenticator.sealBytes_spec hready b
  let paddingBytes := (w.random.read (nextPadding w.padding w.state).1.toNat).1
  have hpadding : paddingBytes.length = (nextPadding w.padding w.state).1.toNat := by
    simp [paddingBytes, ByteStream.read]
  let w' : AuthenticationWriter σ :=
    { w with
      state := state'
      auth := auth'
      random := (w.random.read (nextPadding w.padding w.state).1.toNat).2 }
  refine ⟨field ++ (sealed ++ paddingBytes), w', ?_, ⟨rfl, rfl, haead, hvalid', hready'⟩, rfl, ?_⟩
  · simp only [sealChunk, not_lt.mpr hfits, if_false, hencode, hseal, List.append_assoc,
      paddingBytes, w']
  · exact .intro hfield (by rw [hpadding]; exact hdecode) hopen hsealed hpadding (by omega)

theorem sealChunk_of_too_large (w : AuthenticationWriter σ) {b : Bytes} (hsize : size < w.totalSize b) :
    w.sealChunk b = (.error (.new (ascii "size too large: " ++ formatUint (w.totalSize b))),
      { w with state := (nextPadding w.padding w.state).2 }) := by
  rw [totalSize] at hsize ⊢
  simp only [sealChunk, hsize, if_true]

theorem totalSize_le (hlawful : Lawful sizeParser padding valid)
    (hgood : w.Good sizeParser padding valid aead)
    (hroom : aead.overhead + sizeParser.sizeBytes + maxPadding padding ≤ size) {b : Bytes}
    (hb : b.length ≤ w.payloadSize) : w.totalSize b ≤ size := by
  obtain ⟨rfl, rfl, rfl, -, -⟩ := hgood
  have hpadding := hlawful.nextPadding_le w.state
  rw [payloadSize] at hb
  rw [totalSize]
  omega

variable (hlawful : Lawful sizeParser padding valid)
  (hroom : aead.overhead + sizeParser.sizeBytes + maxPadding padding < size)
  (hgood : w.Good sizeParser padding valid aead)

include hlawful hroom hgood

theorem writeStreamLoop_spec (fuel : Nat) (mb : MultiBuffer ρ) (mb2Write : Bytes)
    (hfuel : mb.len < fuel) (hmb : mb.bytes ≠ []) :
    ∃ payloads chunks w', w.writeStreamLoop fuel mb mb2Write = (.ok (mb2Write ++ chunks), w') ∧
      w'.Good sizeParser padding valid aead ∧ w'.transferType = w.transferType ∧
      Wire (SealedChunk sizeParser padding) (w.auth, w.state) payloads chunks (w'.auth, w'.state) ∧
      (∀ payload ∈ payloads, payload ≠ []) ∧ payloads.flatten = mb.bytes := by
  induction fuel generalizing w mb mb2Write with
  | zero => omega
  | succ fuel ih =>
      have hpayload : 0 < w.payloadSize := by
        rw [payloadSize, hgood.aead_eq, hgood.sizeParser_eq, hgood.padding_eq]
        omega
      obtain ⟨hcopied, hleft⟩ := mb.splitBytes_spec w.payloadSize
      have hne : (mb.splitBytes w.payloadSize).2 ≠ [] := by
        rw [hcopied]
        simp [hmb, hpayload.ne']
      obtain ⟨chunk, w', hseal, hgood', htype, hchunk⟩ := sealChunk_of_fits hlawful hgood
        (totalSize_le hlawful hgood hroom.le (b := (mb.splitBytes w.payloadSize).2)
          (by rw [hcopied]; exact List.length_take_le _ _))
      by_cases hempty : (mb.splitBytes w.payloadSize).1.isEmpty
      · refine ⟨[(mb.splitBytes w.payloadSize).2], chunk, w', ?_, hgood', htype, .single hchunk,
          by simpa using hne, ?_⟩
        · simp only [writeStreamLoop, hseal, hempty, if_true]
        · have hnil := (MultiBuffer.isEmpty_iff _).mp hempty
          rw [hleft] at hnil
          rw [List.flatten_singleton, hcopied, List.take_of_length_le]
          exact List.drop_eq_nil_iff.mp hnil
      · have hless : (mb.splitBytes w.payloadSize).1.len < fuel := by
          have hpos := List.length_pos_iff.mpr hmb
          rw [MultiBuffer.len, hleft, List.length_drop]
          rw [MultiBuffer.len] at hfuel
          omega
        obtain ⟨payloads, chunks, w'', hloop, hgood'', htype', hwire, hpayloads, hflatten⟩ :=
          ih hgood' (mb.splitBytes w.payloadSize).1 (mb2Write ++ chunk) hless
            ((MultiBuffer.isEmpty_eq_false_iff _).mp (by simpa using hempty))
        refine ⟨_ :: payloads, chunk ++ chunks, w'', ?_, hgood'', htype'.trans htype,
          .cons hchunk hwire, ?_, ?_⟩
        · simp only [writeStreamLoop, hseal, hempty, Bool.false_eq_true, if_false, hloop,
            List.append_assoc]
        · rintro payload (_ | ⟨_, hmem⟩)
          · exact hne
          · exact hpayloads _ hmem
        · rw [List.flatten_cons, hflatten, hcopied, hleft, List.take_append_drop]

theorem writeMultiBuffer_stream (hstream : w.transferType = .stream) (mb : MultiBuffer ρ) :
    ∃ payloads chunks w', w.writeMultiBuffer mb = (.ok chunks, w') ∧
      w'.Good sizeParser padding valid aead ∧ w'.transferType = .stream ∧
      Wire (SealedChunk sizeParser padding) (w.auth, w.state) payloads chunks (w'.auth, w'.state) ∧
      Cut mb.bytes payloads := by
  by_cases hempty : mb.isEmpty
  · obtain ⟨chunk, w', hseal, hgood', htype, hchunk⟩ := sealChunk_of_fits hlawful hgood
      (totalSize_le hlawful hgood hroom.le (b := []) (Nat.zero_le _))
    refine ⟨[[]], chunk, w', ?_, hgood', htype.trans hstream, .single hchunk, ?_⟩
    · simp only [writeMultiBuffer, hempty, if_true, hseal]
    · rw [(MultiBuffer.isEmpty_iff _).mp hempty]
      exact .empty
  · have hmb := (MultiBuffer.isEmpty_eq_false_iff mb).mp (by simpa using hempty)
    obtain ⟨payloads, chunks, w', hwrite, hgood', htype, hwire, hpayloads, hflatten⟩ :=
      writeStreamLoop_spec hlawful hroom hgood (mb.len + 1) mb [] (Nat.lt_succ_self _) hmb
    refine ⟨payloads, chunks, w', ?_, hgood', htype.trans hstream, hwire,
      .of_flatten hmb hpayloads hflatten⟩
    simpa only [writeMultiBuffer, hempty, Bool.false_eq_true, if_false, hstream, writeStream,
      List.nil_append] using hwrite

end AuthenticationWriter

/-- A buffer with nothing but its bytes. -/
def asBuffer (payload : Bytes) : Buffer ρ := { bytes := payload }

namespace AuthenticationReader

variable {last : AEADAuthenticator × σ}

structure Pending (last : AEADAuthenticator × σ) (r : AuthenticationReader σ ρ) (size padding : UInt16)
    (payload : Bytes) (payloads : List Bytes) : Prop where
  payload_ne : payload ≠ []
  sizeBytes_pos : 0 < r.sizeParser.sizeBytes
  chunk : ∃ sealed paddingBytes rest auth', r.auth.openBytes sealed = (.ok payload, auth') ∧
    sealed.length = payload.length + r.auth.aead.overhead ∧
    size = UInt16.ofNat (payload.length + r.auth.aead.overhead + paddingBytes.length) ∧
    padding.toNat = paddingBytes.length ∧
    payload.length + r.auth.aead.overhead + paddingBytes.length ≤ Buf.size ∧
    r.reader.content = sealed ++ paddingBytes ++ rest ∧
    Wire (SealedChunk r.sizeParser r.padding) (auth', r.state) payloads rest last

inductive Awaits (last : AEADAuthenticator × σ) (r : AuthenticationReader σ ρ) : List Bytes → Prop
  | fresh {payloads : List Bytes} (hdone : r.done = false) (hpos : 0 < r.sizeParser.sizeBytes)
      (hsize : r.hasSize = false)
      (hwire : Wire (SealedChunk r.sizeParser r.padding) (r.auth, r.state) payloads r.reader.content last) :
      Awaits last r payloads
  | sized {payload : Bytes} {payloads : List Bytes} (hdone : r.done = false) (hsize : r.hasSize = true)
      (hpending : r.Pending last r.size r.paddingLen payload payloads) :
      Awaits last r (payload :: payloads)
  | ended {payloads : List Bytes} (hdone : r.done = true) : Awaits last r ([] :: payloads)

variable {r : AuthenticationReader σ ρ} {payload : Bytes} {payloads : List Bytes}

theorem Pending.size_ne {size padding : UInt16} (h : r.Pending last size padding payload payloads) :
    size ≠ UInt16.ofNat r.auth.aead.overhead + padding := by
  obtain ⟨hpayload, -, sealed, paddingBytes, rest, auth', -, -, rfl, hpadding, hfits, -, -⟩ := h
  have hpos := List.length_pos_iff.mpr hpayload
  rw [ne_eq, ← UInt16.toNat_inj, UInt16.toNat_add, UInt16.toNat_ofNat', UInt16.toNat_ofNat', hpadding]
  rw [Buf.size] at hfits
  omega

theorem readSize_of_decode (hsize : r.hasSize = false) {field rest : Bytes} {size : UInt16}
    {st' : σ} (hfield : field.length = r.sizeParser.sizeBytes)
    (hdecode : r.sizeParser.decode (nextPadding r.padding r.state).2 field = (.ok size, st'))
    (hcontent : r.reader.content = field ++ rest) :
    ∃ reader', r.readSize = (.ok (size, (nextPadding r.padding r.state).1),
        { r with reader := reader', state := st' }) ∧ reader'.content = rest := by
  obtain ⟨reader', hread, hcontent', -⟩ := BufferedReader.readFull_append hcontent
  rw [hfield] at hread
  exact ⟨reader', by simp only [readSize, hsize, Bool.false_eq_true, if_false, hread, hdecode],
    hcontent'⟩

theorem readSize_spec (h : r.Awaits last (payload :: payloads)) (hdone : r.done = false) :
    ∃ size padding r', r.readSize = (.ok (size, padding), r') ∧ r'.hasSize = false ∧
      r'.done = false ∧
      (payload = [] ∧ size = UInt16.ofNat r'.auth.aead.overhead + padding ∨
        r'.Pending last size padding payload payloads) := by
  cases h with
  | ended hdone' => simp [hdone] at hdone'
  | sized _ hsize hpending =>
      exact ⟨r.size, r.paddingLen, { r with hasSize := false }, by simp [readSize, hsize], rfl, hdone,
        .inr ⟨hpending.payload_ne, hpending.sizeBytes_pos, hpending.chunk⟩⟩
  | fresh _ hpos hsize hwire =>
      generalize hcontent : r.reader.content = content at hwire
      cases hwire with
      | cons hchunk hrest =>
          cases hchunk with
          | stop hfield hdecode =>
              rw [List.append_assoc] at hcontent
              obtain ⟨reader', hread, -⟩ := readSize_of_decode hsize hfield hdecode hcontent
              exact ⟨_, _, _, hread, hsize, hdone, .inl ⟨rfl, rfl⟩⟩
          | intro hfield hdecode hopen hsealed hpadding hfits =>
              rw [List.append_assoc] at hcontent
              obtain ⟨reader', hread, hcontent'⟩ := readSize_of_decode hsize hfield hdecode hcontent
              refine ⟨_, _, _, hread, hsize, hdone, ?_⟩
              by_cases hpayload : payload = []
              · refine .inl ⟨hpayload, ?_⟩
                rw [hpayload, List.length_nil, Nat.zero_add, UInt16.ofNat_add, hpadding,
                  UInt16.ofNat_toNat]
              · exact .inr ⟨hpayload, hpos, _, _, _, _, hopen, hsealed, rfl, hpadding.symm, hfits,
                  hcontent', hrest⟩

theorem readBuffer_spec {size padding : UInt16} (hdone : r.done = false) (hsize : r.hasSize = false)
    (h : r.Pending last size padding payload payloads) :
    size.toNat ≤ Buf.size ∧
      ∃ r', r.readBuffer size padding = (.ok (asBuffer payload), r') ∧ r'.Awaits last payloads := by
  obtain ⟨-, hpos, sealed, paddingBytes, rest, auth', hopen, hsealed, rfl, hpadding, hfits, hcontent,
    hwire⟩ := h
  have hnat : (UInt16.ofNat (payload.length + r.auth.aead.overhead + paddingBytes.length)).toNat =
      (sealed ++ paddingBytes).length := by
    rw [toNat_ofNat_uint16 (hfits.trans_lt (by decide)), List.length_append, hsealed]
  obtain ⟨reader', hread, hcontent', -⟩ := BufferedReader.readFull_append hcontent
  have hsealedBytes : bytesTo (sealed ++ paddingBytes)
      ((sealed ++ paddingBytes).length - padding.toNat : Int) = sealed := by
    have hlength : ((sealed ++ paddingBytes).length - padding.toNat : Int) = sealed.length := by
      rw [hpadding, List.length_append]
      omega
    rw [hlength, bytesTo, if_neg (by omega), Int.toNat_natCast, List.take_left]
  refine ⟨by rw [hnat, List.length_append, hsealed]; exact hfits,
    { r with reader := reader', auth := auth' }, ?_, .fresh hdone hpos hsize ?_⟩
  · simp only [readBuffer, hnat, hread, hsealedBytes, hopen]
    rfl
  · rw [hcontent']
    exact hwire

theorem readInternal_spec (h : r.Awaits last (payload :: payloads)) (soft : Bool)
    (mb : MultiBuffer ρ) :
    (soft = true ∧ ∃ r', r.readInternal soft mb = (.errSoft, r') ∧
        r'.Awaits last (payload :: payloads)) ∨
      (payload ≠ [] ∧ ∃ r', r.readInternal soft mb = (.ok (mb ++ [asBuffer payload]), r') ∧
        r'.Awaits last payloads) ∨
      (payload = [] ∧ ∃ r', r.readInternal soft mb = (.error .eof, r') ∧
        r'.Awaits last (payload :: payloads)) := by
  by_cases hbuffered : soft ∧ r.reader.buffer.len < r.sizeParser.sizeBytes
  · exact .inl ⟨hbuffered.1, r, by rw [readInternal, if_pos hbuffered], h⟩
  rw [readInternal, if_neg hbuffered]
  by_cases hdone : r.done
  · refine .inr (.inr ⟨?_, r, by rw [if_pos hdone], h⟩)
    cases h with
    | ended => rfl
    | fresh hdone' => simp [hdone] at hdone'
    | sized hdone' => simp [hdone] at hdone'
  rw [if_neg hdone]
  obtain ⟨size, padding, r', hread, hsize, hdone', ⟨hpayload, hstop⟩ | hpending⟩ :=
    readSize_spec h (by simpa using hdone)
  · refine .inr (.inr ⟨hpayload, { r' with done := true }, ?_, by rw [hpayload]; exact .ended rfl⟩)
    simp only [hread, if_pos hstop]
  · simp only [hread, if_neg hpending.size_ne]
    by_cases henough : soft ∧ r'.reader.buffer.len < size.toNat
    · refine .inl ⟨henough.1, { r' with size, paddingLen := padding, hasSize := true },
        by rw [if_pos henough], .sized hdone' rfl ?_⟩
      exact ⟨hpending.payload_ne, hpending.sizeBytes_pos, hpending.chunk⟩
    · obtain ⟨hle, r'', hbuffer, hawaits⟩ := readBuffer_spec hdone' hsize hpending
      refine .inr (.inl ⟨hpending.payload_ne, r'', ?_, hawaits⟩)
      simp only [if_neg henough, if_pos hle, hbuffer]

theorem readInternal_nil (h : r.Awaits last []) (mb : MultiBuffer ρ) :
    r.readInternal true mb = (.errSoft, r) ∧
      ∃ r', r.readInternal false mb = (.error .eof, r') ∧ r'.reader.content = [] := by
  cases h with
  | fresh hdone hpos hsize hwire =>
      generalize hcontent : r.reader.content = content at hwire
      cases hwire with
      | nil =>
          have hbuffer : r.reader.buffer.len = 0 := by
            rw [BufferedReader.content, List.append_eq_nil_iff] at hcontent
            rw [MultiBuffer.len, hcontent.1, List.length_nil]
          obtain ⟨reader', hread, hcontent'⟩ := BufferedReader.readFull_eof hpos hcontent
          refine ⟨by simp [readInternal, hbuffer, hpos], { r with reader := reader' }, ?_, hcontent'⟩
          simp [readInternal, hdone, readSize, hsize, hread]

theorem softReads_spec (n : Nat) (h : r.Awaits last payloads) (mb : MultiBuffer ρ) :
    ∃ returned rest r', r.softReads n mb = (.ok (mb ++ returned.map asBuffer), r') ∧
      r'.Awaits last rest ∧ payloads = returned ++ rest ∧ ∀ payload ∈ returned, payload ≠ [] := by
  induction n generalizing r payloads mb with
  | zero => exact ⟨[], payloads, r, by simp [softReads], h, rfl, by simp⟩
  | succ n ih =>
      cases payloads with
      | nil =>
          refine ⟨[], [], r, ?_, h, rfl, by simp⟩
          simp [softReads, (readInternal_nil h mb).1]
      | cons payload payloads =>
          obtain ⟨-, r', hread, hawaits⟩ | ⟨hpayload, r', hread, hawaits⟩ | ⟨-, r', hread, hawaits⟩ :=
            readInternal_spec h true mb
          · exact ⟨[], _, r', by simp [softReads, hread], hawaits, rfl, by simp⟩
          · obtain ⟨returned, rest, r'', hreads, hawaits', rfl, hreturned⟩ :=
              ih hawaits (mb ++ [asBuffer payload])
            refine ⟨payload :: returned, rest, r'', ?_, hawaits', rfl, ?_⟩
            · simp only [softReads, hread, hreads, List.append_assoc, List.map_cons,
                List.singleton_append]
            · simpa using ⟨hpayload, hreturned⟩
          · exact ⟨[], _, r', by simp [softReads, hread], hawaits, rfl, by simp⟩

theorem readMultiBuffer_cons (h : r.Awaits last (payload :: payloads)) (hpayload : payload ≠ []) :
    ∃ returned rest r', r.readMultiBuffer = (.ok ((payload :: returned).map asBuffer), r') ∧
      r'.Awaits last rest ∧ payloads = returned ++ rest ∧ ∀ payload ∈ returned, payload ≠ [] := by
  obtain ⟨hsoft, -⟩ | ⟨-, r', hread, hawaits⟩ | ⟨hnil, -⟩ := readInternal_spec h false []
  · exact absurd hsoft (by simp)
  · obtain ⟨returned, rest, r'', hreads, hrest⟩ := softReads_spec 15 hawaits [asBuffer payload]
    exact ⟨returned, rest, r'', by simp [readMultiBuffer, hread, hreads], hrest⟩
  · exact absurd hnil hpayload

theorem readMultiBuffer_end (h : r.Awaits last ([] :: payloads)) :
    ∃ r', r.readMultiBuffer = (.error .eof, r') ∧ r'.Awaits last ([] :: payloads) := by
  obtain ⟨hsoft, -⟩ | ⟨hne, -⟩ | ⟨-, r', hread, hawaits⟩ := readInternal_spec h false []
  · exact absurd hsoft (by simp)
  · exact absurd rfl hne
  · exact ⟨r', by simp [readMultiBuffer, hread], hawaits⟩

end AuthenticationReader

section Copy

/-- Keeps all that is read. -/
def keep (kept mb : MultiBuffer ρ) : Except Error (MultiBuffer ρ) := .ok (kept ++ mb)

/-- **The reader returns the payloads up to the first empty one, each in a buffer of its own, and then
the end.** Without an empty one it sees the end of the wire, with nothing left on it. -/
theorem AuthenticationReader.copyInternal_spec {last : AEADAuthenticator × σ} (fuel : Nat)
    {r : AuthenticationReader σ ρ} {payloads : List Bytes} (h : r.Awaits last payloads)
    (kept : MultiBuffer ρ) (hfuel : payloads.length < fuel) :
    ∃ r', copyInternal readMultiBuffer keep fuel r kept =
        (.readError .eof, r', kept ++ (untilEmpty payloads).map asBuffer) ∧
      ([] ∉ payloads → r'.reader.content = []) := by
  induction fuel generalizing r payloads kept with
  | zero => omega
  | succ fuel ih =>
      cases payloads with
      | nil =>
          obtain ⟨r', hread, hcontent⟩ := (readInternal_nil h []).2
          exact ⟨r', by simp [copyInternal, readMultiBuffer, hread, untilEmpty], fun _ => hcontent⟩
      | cons payload payloads =>
          by_cases hpayload : payload = []
          · subst hpayload
            obtain ⟨r', hread, -⟩ := readMultiBuffer_end h
            exact ⟨r', by simp [copyInternal, hread, untilEmpty], by simp⟩
          · obtain ⟨returned, rest, r', hread, hawaits, rfl, hreturned⟩ :=
              readMultiBuffer_cons h hpayload
            have hne : MultiBuffer.isEmpty ((payload :: returned).map (asBuffer (ρ := ρ))) = false := by
              rw [MultiBuffer.isEmpty_eq_false_iff]
              simp [asBuffer, hpayload]
            simp only [List.length_cons, List.length_append] at hfuel
            obtain ⟨r'', hcopy, hcontent⟩ :=
              ih hawaits (kept ++ (payload :: returned).map asBuffer) (by omega)
            refine ⟨r'', ?_, ?_⟩
            · rw [← List.cons_append, untilEmpty_append (by simpa using ⟨hpayload, hreturned⟩)]
              simp only [copyInternal, hread, hne, Bool.false_eq_true, if_false, keep]
              simpa using hcopy
            · intro hmem
              exact hcontent fun hrest => hmem (by simp [hrest])

end Copy

end V2RootCore.Crypto
