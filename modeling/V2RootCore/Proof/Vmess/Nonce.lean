import V2RootCore.Proof.Vmess.Body

/-!
# Keys and nonces of a VMess session

Every cipher of a session seals with nonces that are its IV with a counter of 16 bits at the front.
Payloads have a key for each direction; authenticated lengths share one key and one IV.
-/

namespace V2RootCore.Vmess

open Go Buf Crypto BodyWriter

variable {ρ : Type}

/-- What a cipher has sealed with: its key, its IV and how often it was called. -/
structure Counter where
  key : Bytes
  iv : Bytes
  calls : Nat

namespace Counter

/-- The part of the IV that is in every nonce. -/
def tail (c : Counter) : Bytes := (c.iv.drop 2).take 10

def uses (c : Counter) : List (Bytes × Bytes) :=
  (List.range c.calls).map fun count => (c.key, (generateChunkNonce c.iv 12).bytes count)

theorem nonce_eq (iv : Bytes) (count : Nat) :
    (generateChunkNonce iv 12).bytes count = putUint16 (UInt16.ofNat count) ++ (iv.drop 2).take 10 := by
  simp only [generateChunkNonce, List.take_append, length_putUint16]
  rw [List.take_of_length_le (by rw [length_putUint16]; decide)]

theorem nonce_eq_iff (c c' : Counter) (i j : Nat) :
    (generateChunkNonce c.iv 12).bytes i = (generateChunkNonce c'.iv 12).bytes j ↔
      i % 65536 = j % 65536 ∧ c.tail = c'.tail := by
  have hcount : ∀ n : Nat, (UInt16.ofNat n).toNat = n % 65536 := fun n => UInt16.toNat_ofNat'
  rw [nonce_eq, nonce_eq]
  refine ⟨fun h => ?_, fun ⟨hmod, htail⟩ => ?_⟩
  · obtain ⟨hput, htail⟩ := List.append_inj h rfl
    have hofNat := congrArg uint16 hput
    rw [uint16_putUint16, uint16_putUint16] at hofNat
    exact ⟨by rw [← hcount, ← hcount, hofNat], htail⟩
  · have hofNat : UInt16.ofNat i = UInt16.ofNat j := UInt16.toNat.inj (by rw [hcount, hcount, hmod])
    rw [hofNat]
    exact congrArg _ htail

theorem nodup_uses_iff (c : Counter) : c.uses.Nodup ↔ c.calls ≤ 65536 := by
  rw [uses, List.nodup_map_iff_inj_on List.nodup_range]
  simp only [List.mem_range, Prod.mk.injEq, true_and, nonce_eq_iff c c, and_true]
  refine ⟨fun h => ?_, fun h i hi j hj hmod => ?_⟩
  · by_contra hmore
    have hzero := h 0 (by omega) 65536 (by omega) (by decide)
    omega
  · omega

/-- Two ciphers that both have sealed, with the same key and the same part of the IV, have used the
same nonce: the counters start at zero. -/
def Separate (c c' : Counter) : Prop := 0 < c.calls → 0 < c'.calls → c.key = c'.key → c.tail ≠ c'.tail

theorem disjoint_uses_iff (c c' : Counter) : c.uses.Disjoint c'.uses ↔ c.Separate c' := by
  refine ⟨fun h hpos hpos' hkey htail => ?_, fun h use huse huse' => ?_⟩
  · have hnonce := (nonce_eq_iff c c' 0 0).mpr ⟨rfl, htail⟩
    refine h (List.mem_map.mpr ⟨0, List.mem_range.mpr hpos, rfl⟩) (List.mem_map.mpr ⟨0, ?_, ?_⟩)
    · exact List.mem_range.mpr hpos'
    · rw [hkey, hnonce]
  · obtain ⟨i, hi, rfl⟩ := List.mem_map.mp huse
    obtain ⟨j, hj, heq⟩ := List.mem_map.mp huse'
    obtain ⟨hkey, hnonce⟩ := Prod.mk.inj heq
    exact h (Nat.zero_lt_of_lt (List.mem_range.mp hi)) (Nat.zero_lt_of_lt (List.mem_range.mp hj))
      hkey.symm ((nonce_eq_iff c c' i j).mp hnonce.symm).2

end Counter

section Invariants

variable {Inv : AuthenticationWriter ParserState → Prop} {w : AuthenticationWriter ParserState}
  (hseal : ∀ w b, Inv w → Inv (w.sealChunk b).2)

include hseal

theorem writeStreamLoop_invariant (fuel : Nat) (h : Inv w) (mb : MultiBuffer ρ) (mb2Write : Bytes) :
    Inv (w.writeStreamLoop fuel mb mb2Write).2 := by
  induction fuel generalizing w mb mb2Write with
  | zero => exact h
  | succ fuel ih =>
      simp only [AuthenticationWriter.writeStreamLoop]
      have hchunk := hseal w (mb.splitBytes w.payloadSize).2 h
      generalize w.sealChunk (mb.splitBytes w.payloadSize).2 = result at hchunk ⊢
      obtain ⟨_ | eb, w'⟩ := result
      · exact hchunk
      · simp only
        split_ifs
        · exact hchunk
        · exact ih hchunk _ _

theorem writePacket_invariant (h : Inv w) (mb : MultiBuffer ρ) :
    Inv (w.writePacket mb).2 := by
  induction mb generalizing w with
  | nil => exact h
  | cons b mb ih =>
      simp only [AuthenticationWriter.writePacket]
      split_ifs
      · exact ih h
      · have hchunk := hseal w b.bytes h
        generalize w.sealChunk b.bytes = result at hchunk ⊢
        obtain ⟨_ | eb, w'⟩ := result <;> exact ih hchunk

theorem writeMultiBuffer_invariant (h : Inv w) (mb : MultiBuffer ρ) :
    Inv (w.writeMultiBuffer mb).2 := by
  unfold AuthenticationWriter.writeMultiBuffer
  split_ifs
  · have hchunk := hseal w [] h
    generalize w.sealChunk [] = result at hchunk ⊢
    obtain ⟨_ | eb, w'⟩ := result <;> exact hchunk
  · split
    · exact writeStreamLoop_invariant hseal _ h _ _
    · exact writePacket_invariant hseal h mb

theorem writeAll_invariant (h : Inv w) (writes : List (MultiBuffer ρ)) :
    ∃ w', ((authentication w).writeAll writes).2 = .authentication w' ∧ Inv w' := by
  induction writes generalizing w with
  | nil => exact ⟨w, rfl, h⟩
  | cons mb writes ih =>
      have hwrite := writeMultiBuffer_invariant hseal h mb
      simp only [writeAll, writeMultiBuffer]
      generalize w.writeMultiBuffer mb = result at hwrite ⊢
      obtain ⟨_ | written, w'⟩ := result
      · exact ⟨w', rfl, hwrite⟩
      · obtain ⟨w'', hwrites, h''⟩ := ih hwrite
        simp only
        rcases hrest : (authentication w').writeAll writes with ⟨_ | more, rest⟩ <;>
          (rw [hrest] at hwrites; exact ⟨w'', hwrites, h''⟩)

end Invariants

structure Counts (authenticated : Bool) (key iv lengthKey lengthIV : Bytes)
    (w : AuthenticationWriter ParserState) : Prop where
  parser : IsSizeParser authenticated 16 w.sizeParser
  padding : IsPadding w.padding
  key_eq : w.auth.aead.key = key
  lengthKey_eq : w.state.lengthAuth.aead.key = lengthKey
  ready : w.auth.Ready
  valid : Valid 16 w.state
  nonces : w.auth.nonceGenerator.bytes = (generateChunkNonce iv 12).bytes
  length_nonces : w.state.lengthAuth.nonceGenerator =
    { bytes := (generateChunkNonce lengthIV 12).bytes
      calls := if authenticated then w.auth.nonceGenerator.calls else 0 }

theorem IsPadding.lengthAuth {padding : Option (PaddingLengthGenerator ParserState)}
    (h : IsPadding padding) (st : ParserState) :
    (nextPadding padding st).2.lengthAuth = st.lengthAuth := by
  cases h <;> rfl

theorem Counts.sealChunk {authenticated : Bool} {key iv lengthKey lengthIV : Bytes}
    (w : AuthenticationWriter ParserState) (b : Bytes)
    (h : Counts authenticated key iv lengthKey lengthIV w) :
    Counts authenticated key iv lengthKey lengthIV (w.sealChunk b).2 := by
  have hpadding := h.padding.lengthAuth w.state
  by_cases hsize : size < w.totalSize b
  · rw [w.sealChunk_of_too_large hsize]
    exact { h with
      lengthKey_eq := by simp only [hpadding, h.lengthKey_eq]
      valid := by simpa only [Valid, hpadding] using h.valid
      length_nonces := by simp only [hpadding, h.length_nonces] }
  · obtain ⟨field, st', hencode, -, -, hvalid, haead, hgenerator⟩ := h.parser.decode_encode
      (show Valid 16 (nextPadding w.padding w.state).2 by simpa only [Valid, hpadding] using h.valid)
      (UInt16.ofNat (b.length + w.auth.aead.overhead + (nextPadding w.padding w.state).1.toNat))
    obtain ⟨sealed, auth', hseal, -, -, hready', haead', hgenerator'⟩ :=
      AEADAuthenticator.sealBytes_spec h.ready b
    rw [AuthenticationWriter.totalSize] at hsize
    simp only [AuthenticationWriter.sealChunk, hsize, if_false, hencode, hseal]
    exact
      { parser := h.parser
        padding := h.padding
        key_eq := by simp only [haead', h.key_eq]
        lengthKey_eq := by simp only [haead, hpadding, h.lengthKey_eq]
        ready := hready'
        valid := hvalid
        nonces := by simp only [hgenerator', BytesGenerator.next, h.nonces]
        length_nonces := by
          rw [hpadding] at hgenerator
          rw [hgenerator, hgenerator', h.length_nonces]
          cases authenticated <;> rfl }

section Session

variable (prim : Primitives)

/-- The two security types with authenticated encryption. -/
def IsAead (security : SecurityType) : Prop := security = .aes128Gcm ∨ security = .chacha20Poly1305

variable {prim}

theorem newBody_counts {key iv lengthKey lengthIV : Bytes} (hiv : iv.length = 16)
    (hlengthIV : lengthIV.length = 16) {request : RequestHeader} (haead : IsAead request.security)
    {random : ByteStream} {w : BodyWriter}
    (hw : (newBody prim key iv lengthKey lengthIV request).map (Body.writer random) = .ok w) :
    ∃ w', w = .authentication w' ∧
      Counts (has request.option requestOptionAuthenticatedLength) (cipherKey prim request.security key) iv
        (cipherKey prim request.security lengthKey) lengthIV w' := by
  cases hbody : newBody prim key iv lengthKey lengthIV request with
  | error err =>
      rw [hbody] at hw
      cases hw
  | ok body =>
      rw [hbody] at hw
      obtain ⟨sizeParser, padding, hparser, hpadding, ⟨hnone, -⟩ | ⟨-, newCipher, hcipher, rfl⟩⟩ :=
        newBody_cases hbody
      · rw [hnone] at haead
        simp [IsAead] at haead
      · obtain ⟨sizeParser', lengthAuth, hsealed, rfl, hparser', hlengthReady, hready⟩ :=
          @sealedBody_parts prim key iv lengthKey lengthIV request _ hcipher hiv hlengthIV _ (hparser 16)
            padding { byte := prim.shake128 iv }
        rw [hsealed] at hw
        refine ⟨_, (Except.ok.inj hw).symm, ?_⟩
        exact
          { parser := hparser'
            padding := hpadding
            key_eq := hcipher.key key
            lengthKey_eq := hcipher.key lengthKey
            ready := hready
            valid := ⟨hlengthReady, hcipher.overhead lengthKey⟩
            nonces := rfl
            length_nonces := by
              cases has request.option requestOptionAuthenticatedLength <;> rfl }

/-- No pair of key and nonce comes twice: no direction has more than 65536 chunks, no two of the keys
in use are the same, and with authenticated lengths only one direction has sent anything. -/
def Fresh (authenticated : Bool) (lengthKey : Bytes) (request response : Counter) : Prop :=
  request.calls ≤ 65536 ∧ response.calls ≤ 65536 ∧ request.Separate response ∧
    (authenticated = true → (request.calls = 0 ∨ response.calls = 0) ∧
      (0 < request.calls → lengthKey ≠ request.key) ∧
      (0 < response.calls → lengthKey = response.key → request.tail ≠ response.tail))

theorem nodup_iff_fresh (authenticated : Bool) (lengthKey : Bytes) (request response : Counter) :
    ((request.uses ++
          (⟨lengthKey, request.iv, if authenticated then request.calls else 0⟩ : Counter).uses) ++
        (response.uses ++
          (⟨lengthKey, request.iv, if authenticated then response.calls else 0⟩ : Counter).uses)).Nodup ↔
      Fresh authenticated lengthKey request response := by
  simp only [List.nodup_append', List.disjoint_append_left, List.disjoint_append_right,
    Counter.nodup_uses_iff, Counter.disjoint_uses_iff]
  cases authenticated
  · simp [Fresh, Counter.Separate]
  · simp only [Fresh, Counter.Separate, Counter.tail, if_true, ne_eq, forall_true_left]
    generalize (List.take 10 (List.drop 2 request.iv)) = tail
    generalize (List.take 10 (List.drop 2 response.iv)) = tail'
    grind

theorem Counts.seals_eq {authenticated : Bool} {key iv lengthKey lengthIV : Bytes}
    {w : AuthenticationWriter ParserState} (h : Counts authenticated key iv lengthKey lengthIV w) :
    (authentication w).seals =
      (⟨key, iv, (authentication w).chunks⟩ : Counter).uses ++
        (⟨lengthKey, lengthIV, if authenticated then (authentication w).chunks else 0⟩ :
          Counter).uses := by
  simp only [seals, chunks, AEADAuthenticator.uses, Counter.uses, h.key_eq, h.nonces,
    h.lengthKey_eq, h.length_nonces]

variable (prim)

/-- **A VMess session uses no pair of key and nonce twice exactly as long as it is fresh.** -/
theorem seals_nodup_iff (s : Session) (request : RequestHeader) (haead : IsAead request.security)
    {random random' : ByteStream} {requestWriter responseWriter : BodyWriter}
    (hrequest : encodeRequestBody prim s request random = .ok requestWriter)
    (hresponse : encodeResponseBody prim s request random' = .ok responseWriter)
    (requests responses : List (MultiBuffer ρ)) :
    ((requestWriter.writeAll requests).2.seals ++ (responseWriter.writeAll responses).2.seals).Nodup ↔
      Fresh (has request.option requestOptionAuthenticatedLength)
        (cipherKey prim request.security (s.authenticatedLengthKey prim))
        { key := cipherKey prim request.security s.requestBodyKey.toList
          iv := s.requestBodyIV.toList
          calls := (requestWriter.writeAll requests).2.chunks }
        { key := cipherKey prim request.security (s.responseBodyKey prim)
          iv := s.responseBodyIV prim
          calls := (responseWriter.writeAll responses).2.chunks } := by
  have hiv : s.requestBodyIV.toList.length = 16 := s.requestBodyIV.toList_length
  obtain ⟨w, rfl, hcounts⟩ := newBody_counts hiv hiv haead hrequest
  obtain ⟨w', rfl, hcounts'⟩ := newBody_counts (length_responseBodyIV prim s) hiv haead hresponse
  obtain ⟨last, hlast, hcounts⟩ := writeAll_invariant Counts.sealChunk hcounts requests
  obtain ⟨last', hlast', hcounts'⟩ := writeAll_invariant Counts.sealChunk hcounts' responses
  rw [hlast, hlast', hcounts.seals_eq, hcounts'.seals_eq]
  exact nodup_iff_fresh _ _ ⟨_, _, _⟩ ⟨_, _, _⟩

end Session

/-- A session whose keys differ from each other. -/
def Session.ascending : Session where
  requestBodyKey := ⟨(List.range 16).map UInt8.ofNat, rfl⟩
  requestBodyIV := ⟨(List.range 16).map UInt8.ofNat, rfl⟩

theorem seals_nodup_one_way :
    ∃ w w', encodeRequestBody .counting .ascending .padded { byte := fun _ => 0 } = .ok w ∧
      encodeResponseBody .counting .ascending .padded { byte := fun _ => 0 } = .ok w' ∧
      ((w.writeAll [[({ bytes := [1] } : Buffer Unit)]]).2.seals ++
        (w'.writeAll ([] : List (MultiBuffer Unit))).2.seals).Nodup := by
  refine ⟨_, _, rfl, rfl, (seals_nodup_iff .counting .ascending .padded (.inl rfl) rfl rfl _ _).mpr ?_⟩
  refine ⟨by decide +kernel, by decide +kernel, fun _ hpos => ?_, fun _ => ⟨.inr rfl, fun _ => ?_, fun hpos => ?_⟩⟩
  · exact absurd hpos (by decide +kernel)
  · decide +kernel
  · exact absurd hpos (by decide +kernel)

/-- With authenticated lengths, one chunk in each direction is enough to use a nonce twice. -/
theorem length_nonce_reused :
    ∃ w w', encodeRequestBody .counting .ascending .padded { byte := fun _ => 0 } = .ok w ∧
      encodeResponseBody .counting .ascending .padded { byte := fun _ => 0 } = .ok w' ∧
      ¬((w.writeAll [[({ bytes := [1] } : Buffer Unit)]]).2.seals ++
        (w'.writeAll [[({ bytes := [1] } : Buffer Unit)]]).2.seals).Nodup :=
  ⟨_, _, rfl, rfl, by decide +kernel⟩

end V2RootCore.Vmess
