import V2RootCore.Kcp.Mtu
import V2RootCore.Proof.Conf.Kcp
import V2RootCore.Proof.Kcp.Packet
import V2RootCore.Proof.Kcp.Sending

/-!
# The size of packets

The payload limit leaves room for the header, the tag and the head of a data segment, and not for the nonce. So a
packet can exceed the MTU by the size of the nonce, which is zero without a seed. Acknowledgements and commands
are below the smallest MTU with any header and any of the two ciphers.
-/

namespace V2RootCore.Kcp

open Go Conf KCPPacketWriter Transition

section Acks

variable {β : Type}

theorem length_fillCandidates_le {seg : AckSegment} (hseg : seg.numberList.length ≤ ackNumberLimit)
    (candidates : List UInt32) :
    (AckList.fillCandidates seg candidates).numberList.length ≤ ackNumberLimit := by
  induction candidates generalizing seg with
  | nil => exact hseg
  | cons number rest ih =>
      unfold AckList.fillCandidates
      split
      · exact hseg
      · next hfull =>
          refine ih ?_
          have hless : seg.numberList.length ≠ ackNumberLimit := by simpa [AckSegment.isFull] using hfull
          rw [AckSegment.putNumber_numberList, List.length_append, List.length_singleton]
          omega

/-- While acknowledgements are collected the segment being filled is not full. -/
structure AckList.FlushState.Limited (acc : AckList.FlushState) : Prop where
  seg : acc.seg.numberList.length < ackNumberLimit
  written : ∀ seg ∈ acc.written, seg.numberList.length ≤ ackNumberLimit

theorem AckList.FlushState.Limited.flushItem {acc : AckList.FlushState} (h : acc.Limited)
    (current rto : UInt32) (item : AckItem) : (AckList.flushItem current rto acc item).Limited := by
  have hlength : ((acc.seg.putNumber item.number).putTimestamp item.timestamp).numberList.length =
      acc.seg.numberList.length + 1 := by simp
  unfold AckList.flushItem
  split
  · exact ⟨h.seg, h.written⟩
  · dsimp only
    split
    · refine ⟨Nat.succ_pos _, fun seg hseg => ?_⟩
      obtain hold | hnew := List.mem_append.mp hseg
      · exact h.written seg hold
      · rw [List.mem_singleton.mp hnew, hlength]
        exact h.seg
    · next hfull =>
        have hless : acc.seg.numberList.length + 1 ≠ ackNumberLimit := by
          simpa [AckSegment.isFull, hlength] using hfull
        refine ⟨?_, h.written⟩
        have := h.seg
        dsimp only
        omega

theorem AckList.length_flush_le (acks : AckList) (current rto : UInt32) :
    ∀ seg ∈ (acks.flush current rto).2, seg.numberList.length ≤ ackNumberLimit := by
  have hlimited : (acks.items.foldl (AckList.flushItem current rto) { dirty := acks.dirty }).Limited := by
    refine List.foldlRecOn acks.items _ ⟨Nat.succ_pos _, List.forall_mem_nil _⟩ ?_
    intro acc h item _
    exact h.flushItem current rto item
  unfold AckList.flush
  dsimp only
  split
  · intro seg hseg
    obtain hold | hnew := List.mem_append.mp hseg
    · exact hlimited.written seg hold
    · rw [List.mem_singleton.mp hnew]
      exact length_fillCandidates_le hlimited.seg.le _
  · exact hlimited.written

end Acks

namespace Connection

section Keys

variable {β : Type} (c : Connection β)

theorem keys_input_subset (current : UInt32) (seg : Segment β) :
    (c.input current seg).sendingWorker.keys ⊆ c.sendingWorker.keys := by
  unfold input
  split
  · exact List.Subset.refl _
  · have hoption := (c.moves_handleOption seg.option).keys_subset
    cases seg with
    | data seg => exact hoption
    | ack seg => exact List.Subset.trans (SendingWorker.keys_processSegment_subset _ _ _ _) hoption
    | cmdOnly seg =>
        refine List.Subset.trans ?_ (List.Subset.trans (moves_handleCommand _ seg.cmd).keys_subset hoption)
        dsimp only
        rw [SendingWorker.keys_processReceivingNext]
        exact (List.dropWhile_sublist _).subset

end Keys

/-- Every payload that waits for transmission is within a limit. -/
def Within (limit : UInt32) (c : Connection Bytes) : Prop :=
  ∀ key ∈ c.sendingWorker.keys, key.2.length ≤ limit.toNat

variable {limit : UInt32} {c : Connection Bytes}

theorem keys_push_subset {β : Type} (w : SendingWorker β) (b : β) :
    (w.push b).1.keys ⊆ w.keys ++ [(w.nextNumber, b)] := by
  unfold SendingWorker.push
  split
  · exact List.subset_append_left _ _
  split
  · exact List.subset_append_left _ _
  · rw [SendingWorker.keys, SendingWindow.keys_push]
    exact List.Subset.refl _

theorem Within.write (h : Within limit c) (reader : Bytes) : Within limit (c.writeRound limit reader) := by
  unfold writeRound
  split
  · exact h
  · intro key hkey
    obtain hold | hnew := List.mem_append.mp (keys_push_subset _ _ hkey)
    · exact h key hold
    · rw [List.mem_singleton.mp hnew]
      exact (List.length_take_le _ _).trans (min_le_left _ _)

theorem Within.step (h : Within limit c) (event : Event) : Within limit (c.step limit event) := by
  cases event with
  | write reader => exact h.write reader
  | input current seg => exact fun key hkey => h key (c.keys_input_subset current seg hkey)
  | flushSending current =>
      intro key hkey
      rw [Connection.step, flushSending] at hkey
      dsimp only at hkey
      rw [SendingWorker.keys_flush] at hkey
      exact h key hkey
  | flushReceiving current => exact h
  | ping cmd => exact h
  | setState state => exact fun key hkey => h key ((c.moves_setState state).keys_subset hkey)
  | readMultiBuffer => exact h

/-- What is emitted: payloads within the limit, acknowledgements of at most 128 numbers, commands. -/
def Moderate (limit : UInt32) : Segment Bytes → Prop
  | .data s => s.payload.length ≤ limit.toNat
  | .ack s => s.numberList.length ≤ ackNumberLimit
  | .cmdOnly _ => True

theorem Moderate.byteSize_le {seg : Segment Bytes} (h : Moderate limit seg) :
    seg.byteSize ≤ max (18 + limit.toNat) 529 := by
  cases seg with
  | data s =>
      have hpayload : s.payload.length ≤ limit.toNat := h
      rw [Segment.byteSize]
      omega
  | ack s =>
      have hnumbers : s.numberList.length ≤ 128 := h
      rw [Segment.byteSize]
      omega
  | cmdOnly s =>
      rw [Segment.byteSize]
      omega

theorem Within.emitted (h : Within limit c) (event : Event) : ∀ seg ∈ c.emitted event, Moderate limit seg := by
  intro seg hseg
  cases event with
  | flushSending current =>
      rw [Connection.emitted, flushSending] at hseg
      simp only [List.mem_append, List.mem_map, List.mem_ite_nil_right, List.mem_singleton] at hseg
      obtain ⟨written, hwritten, rfl⟩ | ⟨-, rfl⟩ := hseg
      · exact h _ (c.sendingWorker.mem_flush_written _ _ _ _ _ hwritten).1
      · trivial
  | flushReceiving current =>
      obtain ⟨ack, hack, rfl⟩ := List.mem_map.mp hseg
      obtain ⟨collected, hcollected, rfl⟩ := List.mem_map.mp hack
      exact AckList.length_flush_le _ _ _ collected hcollected
  | ping cmd =>
      rw [List.mem_singleton.mp hseg]
      trivial
  | write reader => exact nomatch hseg
  | input current seg => exact nomatch hseg
  | setState state => exact nomatch hseg
  | readMultiBuffer => exact nomatch hseg

end Connection

section Sizes

variable {header : Option Bytes} {security : Security} {drawn b : Bytes}

theorem length_write (hdrawn : drawn.length = security.nonceSize)
    (hnonce : 0 < security.nonceSize ∨ security = .simple)
    (hfits : (header.getD []).length + security.nonceSize + (security.overhead + b.length) ≤ arraySize) :
    ∃ packet, write header (some security) drawn b = .ok packet ∧
      packet.length = (header.getD []).length + security.nonceSize + (security.overhead + b.length) := by
  rw [write_eq security b hdrawn hfits]
  cases security with
  | simple =>
      refine ⟨_, rfl, ?_⟩
      rw [List.length_append, List.length_append, hdrawn, length_sealTo_snd]
      rfl
  | aead cipher =>
      have hpositive : cipher.nonceSize ≠ 0 := by
        obtain hpos | habsurd := hnonce
        · exact hpos.ne'
        · exact nomatch habsurd
      have hlast : lastBytes (header.getD [] ++ drawn) cipher.nonceSize = drawn := by
        rw [lastBytes, if_neg hpositive, List.length_append]
        rw [show drawn.length = cipher.nonceSize from hdrawn, Nat.add_sub_cancel, List.drop_left]
      have hseal : ∀ capacity, (Security.aead cipher).sealTo capacity
          (lastBytes (header.getD [] ++ drawn) (Security.aead cipher).nonceSize) b =
          .ok (cipher.sealText drawn b) := fun capacity => by
        rw [show lastBytes _ (Security.aead cipher).nonceSize = drawn from hlast]
        exact if_pos hdrawn
      refine ⟨header.getD [] ++ drawn ++ cipher.sealText drawn b, ?_, ?_⟩
      · rw [hseal]
        rfl
      · rw [List.length_append, List.length_append, hdrawn, cipher.length_sealText, Nat.add_comm b.length]
        rfl

variable (newAesGcm : String → AesGcm) (settings : KcpSettings)

/-- The size of the nonce, zero without a seed. -/
theorem security_cases :
    (settings.seed = none ∧ getSecurity newAesGcm settings = .simple ∧
        (getSecurity newAesGcm settings).nonceSize = 0 ∧ (getSecurity newAesGcm settings).overhead = 6) ∨
      (settings.seed ≠ none ∧ (getSecurity newAesGcm settings).nonceSize = 12 ∧
        (getSecurity newAesGcm settings).overhead = 16) := by
  unfold getSecurity
  cases settings.seed with
  | none => exact Or.inl ⟨rfl, rfl, rfl, rfl⟩
  | some seed =>
      exact Or.inr ⟨Option.some_ne_none _, (newAesGcm seed).nonceSize_eq, (newAesGcm seed).overhead_eq⟩

theorem headerSize_le {settings : KcpSettings} {size : Nat} (hsize : headerSize settings = some size) :
    size ≤ 13 := by
  unfold headerSize at hsize
  split at hsize
  · obtain rfl := Option.some.inj hsize
    decide
  · next header _ =>
      cases header <;> simp only [headerKindSize, Option.some.injEq, reduceCtorEq] at hsize <;> omega

/-- The packet of a segment, with any bytes of the header and any nonce, has at most `GetMTUValue` bytes. -/
def FitsMtu (size : Nat) (seg : Segment Bytes) : Prop :=
  ∀ header drawn, (header.getD []).length = size → drawn.length = (getSecurity newAesGcm settings).nonceSize →
    ∃ packet, write header (some (getSecurity newAesGcm settings)) drawn seg.serialize =
      .ok packet ∧ packet.length ≤ settings.getMTUValue.toNat

/-- The payload limit of the connection. -/
def payloadLimit (size : Nat) : UInt32 :=
  mss settings (some (List.replicate size 0)) (getSecurity newAesGcm settings)

/-- A data segment leaves room for the nonce of its packet. -/
def LeavesNonce (size : Nat) (seg : Segment Bytes) : Prop :=
  settings.seed = none ∨
    ∀ s, seg = .data s → s.payload.length + 12 ≤ (payloadLimit newAesGcm settings size).toNat

/-- The packet of a segment, with any bytes of the header and any nonce, is read as this segment. -/
def ReadBack (size : Nat) (seg : Segment Bytes) : Prop :=
  ∀ header drawn, (header.getD []).length = size → drawn.length = (getSecurity newAesGcm settings).nonceSize →
    Decodes header (getSecurity newAesGcm settings) drawn [seg]

variable {newAesGcm settings} {size : Nat}

theorem toNat_payloadLimit (newAesGcm : String → AesGcm) (hmtu : 576 ≤ settings.getMTUValue.toNat)
    (hsize : size ≤ 13) :
    (payloadLimit newAesGcm settings size).toNat + size + (getSecurity newAesGcm settings).overhead + 18 =
      settings.getMTUValue.toNat := by
  have hoverhead : overhead (some (List.replicate size 0))
      (some (getSecurity newAesGcm settings)) = size + (getSecurity newAesGcm settings).overhead := by
    simp [overhead]
  have hsmall : (getSecurity newAesGcm settings).overhead ≤ 16 := by
    obtain ⟨-, -, -, h⟩ | ⟨-, -, h⟩ := security_cases newAesGcm settings <;> omega
  have hlimit := settings.getMTUValue.toNat_lt
  rw [payloadLimit, mss, hoverhead, UInt32.toNat_sub, UInt32.toNat_sub, UInt32.toNat_ofNat', dataSegmentOverhead]
  simp only [UInt32.reduceToNat]
  omega

variable {seg : Segment Bytes} (hmtu : 576 ≤ settings.getMTUValue.toNat ∧ settings.getMTUValue.toNat ≤ 1460)
  (hsize : size ≤ 13) (hseg : Connection.Moderate (payloadLimit newAesGcm settings size) seg)

include hmtu hsize hseg

theorem fitsMtu_iff :
    FitsMtu newAesGcm settings size seg ↔
      size + (getSecurity newAesGcm settings).nonceSize +
        ((getSecurity newAesGcm settings).overhead + seg.byteSize) ≤ settings.getMTUValue.toNat := by
  have hlimit := toNat_payloadLimit newAesGcm hmtu.1 hsize
  have hbytes := hseg.byteSize_le
  have hcipher := security_cases newAesGcm settings
  have hnonce : 0 < (getSecurity newAesGcm settings).nonceSize ∨ getSecurity newAesGcm settings = .simple := by
    obtain ⟨-, hsimple, -⟩ | ⟨-, hnonce, -⟩ := hcipher
    · exact Or.inr hsimple
    · exact Or.inl (by omega)
  have hpacket : ∀ header drawn, (header.getD []).length = size →
      drawn.length = (getSecurity newAesGcm settings).nonceSize →
      ∃ packet, write header (some (getSecurity newAesGcm settings)) drawn seg.serialize =
        .ok packet ∧ packet.length = size + (getSecurity newAesGcm settings).nonceSize +
          ((getSecurity newAesGcm settings).overhead + seg.byteSize) := by
    intro header drawn hheader hdrawn
    have hwrite := length_write (b := seg.serialize) hdrawn hnonce (by
      rw [hheader, length_serialize]
      unfold arraySize
      obtain ⟨-, -, h₁, h₂⟩ | ⟨-, h₁, h₂⟩ := hcipher <;> omega)
    rwa [hheader, length_serialize] at hwrite
  constructor
  · intro hfits
    obtain ⟨packet, hok, hle⟩ := hfits (some (List.replicate size 0))
      (List.replicate (getSecurity newAesGcm settings).nonceSize 0) (by simp) (by simp)
    obtain ⟨packet', hok', hlength⟩ := hpacket (some (List.replicate size 0))
      (List.replicate (getSecurity newAesGcm settings).nonceSize 0) (by simp) (by simp)
    obtain rfl := Except.ok.inj (hok.symm.trans hok')
    rwa [hlength] at hle
  · intro hle header drawn hheader hdrawn
    obtain ⟨packet, hok, hlength⟩ := hpacket header drawn hheader hdrawn
    exact ⟨packet, hok, hlength ▸ hle⟩

theorem fitsMtu_iff_leavesNonce :
    FitsMtu newAesGcm settings size seg ↔ LeavesNonce newAesGcm settings size seg := by
  have hlimit := toNat_payloadLimit newAesGcm hmtu.1 hsize
  rw [fitsMtu_iff hmtu hsize hseg, LeavesNonce]
  obtain ⟨hseed, -, hnonce, hoverhead⟩ | ⟨hseed, hnonce, hoverhead⟩ := security_cases newAesGcm settings
  · have hbytes := hseg.byteSize_le
    exact iff_of_true (by omega) (Or.inl hseed)
  · rw [or_iff_right hseed]
    cases seg with
    | data s =>
        simp only [Segment.data.injEq, forall_eq', Segment.byteSize]
        omega
    | ack s =>
        have hnumbers : s.numberList.length ≤ 128 := hseg
        refine iff_of_true ?_ fun s hdata => by cases hdata
        rw [Segment.byteSize]
        omega
    | cmdOnly s =>
        refine iff_of_true ?_ fun s hdata => by cases hdata
        rw [Segment.byteSize]
        omega

theorem readBack_of_sendable (hsendable : seg.Sendable) :
    ReadBack newAesGcm settings size seg := by
  intro header drawn hheader hdrawn
  have hlimit := toNat_payloadLimit newAesGcm hmtu.1 hsize
  have hbytes := hseg.byteSize_le
  have hsegs := List.forall_mem_singleton.mpr hsendable
  have hlength : ([seg].flatMap Segment.serialize).length = seg.byteSize := by
    rw [List.flatMap_singleton, length_serialize]
  cases hseed : settings.seed with
  | none =>
      have hsimple : getSecurity newAesGcm settings = .simple := by rw [getSecurity, hseed]
      rw [hsimple] at hdrawn ⊢
      obtain rfl := List.eq_nil_of_length_eq_zero hdrawn
      have hpadding : SimpleAuthenticator.padding (6 + seg.byteSize) ≤ 4 := by
        unfold SimpleAuthenticator.padding
        split_ifs <;> omega
      refine (decodes_simple_iff hsegs ?_).mpr (.inr ?_) <;>
        rw [SimpleAuthenticator.overhead, hlength, arraySize] <;> omega
  | some seed =>
      have hcipher : getSecurity newAesGcm settings = .aead (newAesGcm seed).toAead := by rw [getSecurity, hseed]
      have hnonce := (newAesGcm seed).nonceSize_eq
      have hoverhead := (newAesGcm seed).overhead_eq
      rw [hcipher] at hdrawn ⊢
      refine (decodes_aead_iff hsegs hdrawn ?_).mpr (.inl (by omega))
      rw [hlength, arraySize]
      omega

end Sizes

namespace Connection

/-- **All packets of a connection are within the MTU exactly when there is no seed or no data segment that is sent
takes more than the payload limit less the twelve bytes of the nonce.** -/
theorem fitsMtu_along_iff {c : KCPConfig} {settings : KcpSettings} (newAesGcm : String → AesGcm) {size : Nat}
    (hbuild : c.build = .ok settings) (hsize : headerSize settings = some size) (conversation : UInt16)
    (events : List Event) :
    Along (step (payloadLimit newAesGcm settings size))
        (fun conn event => ∀ seg ∈ conn.emitted event, FitsMtu newAesGcm settings size seg)
        (Connection.new conversation settings.toConfig) events ↔
      Along (step (payloadLimit newAesGcm settings size))
        (fun conn event => ∀ seg ∈ conn.emitted event, LeavesNonce newAesGcm settings size seg)
        (Connection.new conversation settings.toConfig) events := by
  have hmtu := (KCPConfig.built_of_build hbuild).mtu_range
  refine along_iff_along (I := Within (payloadLimit newAesGcm settings size))
    (fun conn event h _ => h.step event) ?_ events _ (fun key hkey => nomatch hkey)
  intro conn event h
  refine forall₂_congr fun seg hseg => ?_
  exact fitsMtu_iff_leavesNonce hmtu (headerSize_le hsize) (h.emitted event seg hseg)

/-- A cipher with the sizes of AES-GCM. -/
def zeroTag : AesGcm where
  nonceSize := 12
  overhead := 16
  sealText _ plain := plain ++ List.replicate 16 0
  openText _ cipherText := some (cipherText.take (cipherText.length - 16))
  length_sealText _ plain := by simp
  openText_sealText _ plain := by simp
  nonceSize_eq := rfl
  overhead_eq := rfl

/-- With a seed a short write fits. -/
theorem fitsMtu_along_seed :
    Along (step (payloadLimit (fun _ => zeroTag) { seed := some "s" } 0))
      (fun conn event => ∀ seg ∈ conn.emitted event, FitsMtu (fun _ => zeroTag) { seed := some "s" } 0 seg)
      (Connection.new 0 {}) [.write [1, 2, 3], .flushSending 0] := by
  have hbuild : KCPConfig.build { seed := some "s" } = .ok { seed := some "s" } := rfl
  have hemitted : ((Connection.new 0 { seed := some "s" : KcpSettings }.toConfig).step
      (payloadLimit (fun _ => zeroTag) { seed := some "s" } 0) (.write [1, 2, 3])).emitted (.flushSending 0) =
      [.data { number := 0, payload := [1, 2, 3], timeout := 100, transmit := 1 }] := by
    decide
  refine (fitsMtu_along_iff (fun _ => zeroTag) hbuild rfl 0 _).mpr ⟨List.forall_mem_nil _, ?_, trivial⟩
  change ∀ seg ∈ Connection.emitted _ _, _
  rw [hemitted]
  refine List.forall_mem_singleton.mpr (Or.inr fun s hs => ?_)
  obtain rfl := Segment.data.inj hs
  decide

theorem exists_emitted_of_length {b : Bytes} (hb : b.length = 1316) :
    ∃ s : DataSegment Bytes, s.payload = b ∧
      Segment.data s ∈ ((Connection.new 0 {}).writeRound 1316 b).emitted (.flushSending 0) := by
  have hround : (Connection.new 0 {}).writeRound 1316 b =
      { (Connection.new 0 {} : Connection Bytes) with
        sendingWorker := ((Connection.new 0 {}).sendingWorker.push b).1 } := by
    have hne : ¬ ((Connection.new 0 {} : Connection Bytes).state ≠ .active ∨ b = []) := by
      rintro (hstate | rfl)
      · exact hstate rfl
      · exact absurd hb (by decide)
    rw [writeRound, if_neg hne, List.take_of_length_le (hb.trans_le (by decide))]
  refine ⟨{ number := 0, payload := b, timeout := 100, transmit := 1 }, rfl, ?_⟩
  have hemitted : ({ (Connection.new 0 {} : Connection Bytes) with
      sendingWorker := ((Connection.new 0 {}).sendingWorker.push b).1 }).emitted (.flushSending 0) =
      [.data { number := 0, payload := b, timeout := 100, transmit := 1 }] := by
    simp [Connection.emitted, flushSending, Connection.new, SendingWorker.new, SendingWorker.push,
      SendingWindow.push, SendingWindow.len, SendingWorker.flush, SendingWindow.flush, SendingWindow.isEmpty,
      SendingWindow.visit, SendingWindow.flushSegment, SendingWorker.write, outgoingOption,
      RoundTripInfo.timeout]
    split
    · next heq => rw [← (Prod.mk.inj heq).1]
    · next heq => rw [← (Prod.mk.inj heq).1]
  rw [hround, hemitted]
  exact List.mem_singleton_self _

/-- With a seed a write that fills a segment gives a packet of 1362 bytes, above the MTU of 1350. -/
theorem not_fitsMtu_along_seed :
    ¬ Along (step (payloadLimit (fun _ => zeroTag) { seed := some "s" } 0))
      (fun conn event => ∀ seg ∈ conn.emitted event, FitsMtu (fun _ => zeroTag) { seed := some "s" } 0 seg)
      (Connection.new 0 {}) [.write (List.replicate 1316 0), .flushSending 0] := by
  intro halong
  obtain ⟨s, hpayload, hmem⟩ := exists_emitted_of_length (b := List.replicate 1316 0) List.length_replicate
  have hlength : s.payload.length = 1316 := hpayload ▸ List.length_replicate
  have hlimit : Moderate (payloadLimit (fun _ => zeroTag) { seed := some "s" } 0) (.data s) :=
    hlength.trans_le (by decide)
  have hfits := (fitsMtu_iff (by decide) (by decide) hlimit).mp (halong.2.1 (.data s) hmem)
  rw [Segment.byteSize, hlength] at hfits
  exact absurd hfits (by decide)

/-- **The peer reads what a connection sends**, if it is of a kind the peer knows. -/
theorem decodes_along {c : KCPConfig} {settings : KcpSettings} (newAesGcm : String → AesGcm) {size : Nat}
    (hbuild : c.build = .ok settings) (hsize : headerSize settings = some size) (conversation : UInt16)
    (events : List Event) :
    Along (step (payloadLimit newAesGcm settings size))
      (fun conn event => ∀ seg ∈ conn.emitted event, seg.Sendable → ReadBack newAesGcm settings size seg)
      (Connection.new conversation settings.toConfig) events := by
  have hmtu := (KCPConfig.built_of_build hbuild).mtu_range
  refine (along_iff_along (I := Within (payloadLimit newAesGcm settings size))
    (fun conn event h _ => h.step event) (fun conn event h => iff_of_true trivial ?_) events _
    (fun _ hkey => absurd hkey List.not_mem_nil)).mp (along_of_forall (fun _ _ => trivial) _ _)
  intro seg hseg hsendable
  exact readBack_of_sendable hmtu (headerSize_le hsize) (h.emitted event seg hseg) hsendable

theorem decodes_along_default :
    Along (step (payloadLimit (fun _ => zeroTag) {} 0))
      (fun conn event => ∀ seg ∈ conn.emitted event, seg.Sendable → ReadBack (fun _ => zeroTag) {} 0 seg)
      (Connection.new 0 {}) [.write [1, 2, 3], .flushSending 0] :=
  decodes_along (fun _ => zeroTag) (show KCPConfig.build {} = .ok {} from rfl) rfl 0 _

end Connection

end V2RootCore.Kcp
