import V2RootCore.Socks.Udp
import V2RootCore.Proof.Net.Address
import V2RootCore.Proof.Buf.RawBuffer

/-!
# UDP packets of SOCKS 5 that are read as they were written

A packet is exact as long as its header and payload fit into one buffer. Where they do not, the encoder
panics.
-/

namespace V2RootCore.Socks

open Go Buf Net

def UdpRequest.Proper (request : UdpRequest) : Prop :=
  ∃ address, request.address = some address ∧ address.Proper

/-- The bytes in front of the payload. -/
def headerSize (request : UdpRequest) : Nat := 3 + (request.address.elim 0 Address.wireSize + 2)

def Fits (request : UdpRequest) (payload : Bytes) : Prop := headerSize request + payload.length ≤ size

/-- An error comes back, or a packet that is decoded to what was encoded. -/
def Exact (request : UdpRequest) (payload : Bytes) : Prop :=
  Safe (encodeUDPPacket request payload) fun b =>
    ∃ packet, b.bytes = .ok packet ∧ decodeUDPPacket packet = .ok (request, payload)

/-- Each packet that is sent is decoded to what its buffer says, all of them if there is no error, and
there is no panic. -/
structure Delivers (request : UdpRequest) (outcome : Nat → Option Error) (mb : MultiBuffer Destination) :
    Prop where
  returns : (writeMultiBuffer request outcome mb).2 ≠ .error .panicked
  exact : ∀ (i : Nat) packet, (writeMultiBuffer request outcome mb).1[i]? = some packet →
    ∃ b, mb[i]? = some b ∧ decodeUDPPacket packet = .ok (requestOf request b, b.bytes)
  complete : (writeMultiBuffer request outcome mb).2 = .ok () →
    (writeMultiBuffer request outcome mb).1.length = mb.length

theorem complete_addrParser : addrParser.Complete
  | .ipv4 => ⟨0x01, by decide, by decide, by decide⟩
  | .ipv6 => ⟨0x04, by decide, by decide, by decide⟩
  | .domain => ⟨0x03, by decide, by decide, by decide⟩

theorem decodeUDPPacket_append {header : Bytes} {address : Address} {port : UInt16} {payload : Bytes}
    (hlength : 2 ≤ header.length)
    (hread : addrParser.readAddressPort (header ++ payload) = .ok ((address, port), payload)) :
    decodeUDPPacket ([0, 0, 0] ++ header ++ payload) = .ok (⟨some address, port⟩, payload) := by
  have hlong : ¬([0, 0, 0] ++ header ++ payload).length < 5 := by
    simp only [List.length_append, List.length_cons, List.length_nil]
    omega
  have hdrop : ([0, 0, 0] ++ header ++ payload).drop 3 = header ++ payload := rfl
  have hfragment : ¬([0, 0, 0] ++ header ++ payload).getD 2 0 ≠ 0 := fun h => h rfl
  rw [decodeUDPPacket, if_neg hlong, if_neg hfragment, hdrop, hread]

section Packet

variable {request : UdpRequest} {payload : Bytes}

theorem encodeUDPPacket_eq (hproper : request.Proper) (payload : Bytes) :
    ∃ (header : Bytes) (b : RawBuffer), encodeUDPPacket request payload = b.mustWrite payload ∧
      b.Holds ([0, 0, 0] ++ header) ∧ ([0, 0, 0] ++ header).length = headerSize request ∧
      decodeUDPPacket ([0, 0, 0] ++ header ++ payload) = .ok (request, payload) := by
  obtain ⟨address, haddress, hproper⟩ := hproper
  obtain ⟨tb, content, -, hwrite, hlength, hread, -⟩ := AddressParser.writeAddressPort_of_short rfl
    complete_addrParser hproper.valid.not_tooLong request.port
  have hsize := hproper.valid.wireSize_le
  obtain ⟨b₁, hfirst, hholds₁⟩ := holds_new.mustWrite [0, 0, 0] (by decide)
  obtain ⟨b₂, hsecond, hholds₂⟩ := hholds₁.writeAll (tb :: content) (by
    rw [hlength]
    simp only [List.nil_append, List.length_cons, List.length_nil, size]
    omega)
  have hdecode := decodeUDPPacket_append (by omega) (hread hproper.valid payload)
  rw [hproper.decoded, ← haddress] at hdecode
  refine ⟨tb :: content, b₂, ?_, hholds₂, ?_, hdecode⟩
  · rw [encodeUDPPacket, hfirst, ok_bind, haddress, hwrite, ok_bind, hsecond, ok_bind]
  · rw [headerSize, haddress, List.length_append, hlength]
    rfl

theorem encodeUDPPacket_of_fits (hproper : request.Proper) (hfits : Fits request payload) :
    ∃ b packet, encodeUDPPacket request payload = .ok b ∧ b.bytes = .ok packet ∧
      decodeUDPPacket packet = .ok (request, payload) := by
  obtain ⟨header, b, hencode, hholds, hlength, hdecode⟩ := encodeUDPPacket_eq hproper payload
  obtain ⟨b', hwrite, hholds'⟩ := hholds.mustWrite payload (by rw [hlength]; exact hfits)
  exact ⟨b', _, hencode.trans hwrite, hholds'.bytes, hdecode⟩

theorem encodeUDPPacket_of_full (hproper : request.Proper) (hfull : ¬Fits request payload) :
    encodeUDPPacket request payload = .error .panicked := by
  obtain ⟨header, b, hencode, hholds, hlength, -⟩ := encodeUDPPacket_eq hproper payload
  rw [hencode]
  exact hholds.mustWrite_of_full (by rw [hlength]; exact hfull)

theorem exact_iff_fits (hproper : request.Proper) : Exact request payload ↔ Fits request payload := by
  by_cases hfits : Fits request payload
  · obtain ⟨b, packet, hencode, hbytes, hdecode⟩ := encodeUDPPacket_of_fits hproper hfits
    rw [Exact, hencode]
    exact iff_of_true (.ok ⟨packet, hbytes, hdecode⟩) hfits
  · exact iff_of_false (fun h => h.1 (encodeUDPPacket_of_full hproper hfits)) hfits

end Packet

section Writer

variable {request : UdpRequest} {outcome : Nat → Option Error} {b : Buffer Destination}
  {mb : MultiBuffer Destination}

theorem packetOf_of_full (hproper : request.Proper) {payload : Bytes} (hfull : ¬Fits request payload) :
    packetOf request payload = .error .panicked := by
  rw [packetOf, encodeUDPPacket_of_full hproper hfull]
  rfl

theorem packetOf_of_fits (hproper : request.Proper) {payload : Bytes} (hfits : Fits request payload) :
    ∃ packet, packetOf request payload = .ok packet ∧
      decodeUDPPacket packet = .ok (request, payload) := by
  obtain ⟨b, packet, hencode, hbytes, hdecode⟩ := encodeUDPPacket_of_fits hproper hfits
  exact ⟨packet, by rw [packetOf, hencode, ok_bind, hbytes], hdecode⟩

theorem delivers_nil : Delivers request outcome [] := by
  refine ⟨nofun, ?_, fun _ => rfl⟩
  intro i packet hi
  cases hi

variable {packet : Bytes}

theorem delivers_of_stop {err : Error}
    (hwrite : writeMultiBuffer request outcome (b :: mb) = ([packet], .error err))
    (hdecode : decodeUDPPacket packet = .ok (requestOf request b, b.bytes)) (herr : err ≠ .panicked) :
    Delivers request outcome (b :: mb) := by
  refine ⟨?_, fun i p hi => ?_, ?_⟩
  · rw [hwrite]
    exact fun h => herr (Except.error.inj h)
  · rw [hwrite] at hi
    match i with
    | 0 => exact ⟨b, rfl, by obtain rfl := Option.some.inj hi; exact hdecode⟩
    | i + 1 => cases hi
  · rw [hwrite]
    nofun

theorem delivers_cons_iff {outcome' : Nat → Option Error}
    (hwrite : writeMultiBuffer request outcome (b :: mb) =
      (packet :: (writeMultiBuffer request outcome' mb).1, (writeMultiBuffer request outcome' mb).2))
    (hdecode : decodeUDPPacket packet = .ok (requestOf request b, b.bytes)) :
    Delivers request outcome (b :: mb) ↔ Delivers request outcome' mb := by
  constructor
  · rintro ⟨hreturns, hexact, hcomplete⟩
    rw [hwrite] at hreturns hexact hcomplete
    exact ⟨hreturns, fun i => hexact (i + 1), fun h => Nat.succ.inj (hcomplete h)⟩
  · rintro ⟨hreturns, hexact, hcomplete⟩
    refine ⟨by rw [hwrite]; exact hreturns, fun i p hi => ?_, fun h => ?_⟩
    · rw [hwrite] at hi
      match i with
      | 0 => exact ⟨b, rfl, by obtain rfl := Option.some.inj hi; exact hdecode⟩
      | i + 1 => exact hexact i p hi
    · rw [hwrite] at h ⊢
      exact congrArg Nat.succ (hcomplete h)

/-- Every buffer fits that is reached before the writer fails. -/
def FitReached (request : UdpRequest) (outcome : Nat → Option Error) (mb : MultiBuffer Destination) :
    Prop :=
  ∀ (i : Nat) b, mb[i]? = some b → (∀ j < i, outcome j = none) → Fits (requestOf request b) b.bytes

theorem fitReached_cons : FitReached request outcome (b :: mb) ↔ Fits (requestOf request b) b.bytes ∧
    (outcome 0 = none → FitReached request (fun i => outcome (i + 1)) mb) := by
  constructor
  · intro h
    refine ⟨h 0 b rfl nofun, fun hfirst i b' hb' hbefore => h (i + 1) b' hb' fun j hj => ?_⟩
    match j with
    | 0 => exact hfirst
    | j + 1 => exact hbefore j (Nat.lt_of_succ_lt_succ hj)
  · rintro ⟨hfits, hrest⟩ i b' hb' hbefore
    match i with
    | 0 => exact Option.some.inj hb' ▸ hfits
    | i + 1 =>
        exact hrest (hbefore 0 (Nat.succ_pos i)) i b' hb' fun j hj => hbefore (j + 1) (Nat.succ_lt_succ hj)

theorem delivers_iff (houtcome : ∀ i, outcome i ≠ some .panicked)
    (hproper : ∀ b ∈ mb, (requestOf request b).Proper) :
    Delivers request outcome mb ↔ FitReached request outcome mb := by
  induction mb generalizing outcome with
  | nil => exact iff_of_true delivers_nil fun i b hb => by cases hb
  | cons b mb ih =>
      have hb : (requestOf request b).Proper := hproper b List.mem_cons_self
      have hmb : ∀ b ∈ mb, (requestOf request b).Proper :=
        fun b' hb' => hproper b' (List.mem_cons_of_mem b hb')
      rw [fitReached_cons]
      by_cases hfits : Fits (requestOf request b) b.bytes
      · obtain ⟨packet, hpacket, hdecode⟩ := packetOf_of_fits hb hfits
        cases hfirst : outcome 0 with
        | some err =>
            have herr : err ≠ .panicked := fun h => houtcome 0 (h ▸ hfirst)
            have hwrite : writeMultiBuffer request outcome (b :: mb) = ([packet], .error err) := by
              rw [writeMultiBuffer, hpacket, hfirst, writeRound]
            exact iff_of_true (delivers_of_stop hwrite hdecode herr) ⟨hfits, nofun⟩
        | none =>
            have hwrite : writeMultiBuffer request outcome (b :: mb) =
                (packet :: (writeMultiBuffer request (fun i => outcome (i + 1)) mb).1,
                  (writeMultiBuffer request (fun i => outcome (i + 1)) mb).2) := by
              rw [writeMultiBuffer, hpacket, hfirst, writeRound]
            rw [delivers_cons_iff hwrite hdecode, ih (fun i => houtcome (i + 1)) hmb]
            exact ⟨fun h => ⟨hfits, fun _ => h⟩, fun h => h.2 rfl⟩
      · refine iff_of_false (fun h => h.returns ?_) fun h => hfits h.1
        rw [writeMultiBuffer, packetOf_of_full hb hfits, writeRound]

end Writer

/-- **SOCKS 5 packets are exact if and only if header and payload fit into a buffer**, one by one and
through the writer. -/
theorem encodeUDPPacket_exact_iff (request : UdpRequest) :
    (∀ payload, request.Proper → (Exact request payload ↔ Fits request payload)) ∧
      ∀ outcome mb, (∀ i, outcome i ≠ some .panicked) →
        (∀ b ∈ mb, (requestOf request b).Proper) →
        (Delivers request outcome mb ↔ FitReached request outcome mb) :=
  ⟨fun _ hproper => exact_iff_fits hproper,
    fun _ _ houtcome hproper => delivers_iff houtcome hproper⟩

theorem nameServer_length : ([1, 1, 1, 1] : Bytes).length = 4 := rfl

def UdpRequest.nameServer : UdpRequest :=
  { address := some (.ipv4 ⟨[1, 1, 1, 1], nameServer_length⟩), port := 53 }

def query : Buffer Destination :=
  { bytes := [1, 2, 3], udp := some (udpDestination (.domain (ascii "dns.example")) 53) }

theorem encodeUDPPacket_exact_query :
    Exact .nameServer [1, 2, 3] ∧ Delivers .nameServer (fun _ => none) [{ bytes := [] }, query] := by
  have hserver : UdpRequest.nameServer.Proper := ⟨_, rfl, trivial⟩
  have hquery : (requestOf .nameServer query).Proper := ⟨.domain (ascii "dns.example"), rfl, by decide, by decide⟩
  refine ⟨((encodeUDPPacket_exact_iff _).1 _ hserver).mpr (by unfold Fits; decide), ?_⟩
  refine ((encodeUDPPacket_exact_iff _).2 _ _ (fun i hi => ?_) ?_).mpr ?_
  · cases hi
  · simpa using ⟨hserver, hquery⟩
  · intro i b hb _
    match i with
    | 0 => obtain rfl := Option.some.inj hb; unfold Fits; decide
    | 1 => obtain rfl := Option.some.inj hb; unfold Fits; decide
    | i + 2 => cases hb

/-- A full payload does not fit behind the header. -/
theorem encodeUDPPacket_panics :
    encodeUDPPacket .nameServer (List.replicate 8192 0) = .error .panicked ∧
      writeMultiBuffer .nameServer (fun _ => none) [{ bytes := List.replicate 8192 0 }] =
        ([], .error .panicked) := by
  have hserver : UdpRequest.nameServer.Proper := ⟨_, rfl, trivial⟩
  have hfull : ¬Fits .nameServer (List.replicate 8192 0) := by
    rw [Fits, List.length_replicate]
    decide
  refine ⟨encodeUDPPacket_of_full hserver hfull, ?_⟩
  rw [writeMultiBuffer, requestOf, packetOf_of_full hserver hfull, writeRound]

end V2RootCore.Socks
