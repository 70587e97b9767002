import V2RootCore.Vmess.Body
import V2RootCore.Proof.Crypto.ChunkStream

/-!
# The bodies of VMess arrive as they were written

Whatever the options, size parser and padding generator of a body are lawful, and its ciphers get
nonces of the size they ask for. So the reader of a body, which starts with the same states, returns
what its writer was given.
-/

namespace V2RootCore.Vmess

open Go Buf Crypto ChunkStreamWriter

variable {ρ : Type}

/-- States in which lengths can be sealed. -/
def Valid (overhead : Nat) (st : ParserState) : Prop :=
  st.lengthAuth.Ready ∧ st.lengthAuth.aead.overhead = overhead

theorem length_putUint16 (n : UInt16) : (putUint16 n).length = 2 := rfl

theorem shake_decode_encode (st : ParserState) (size : UInt16) :
    ∃ field, shakeSizeParser.encode st size = (.ok field, (next st).2) ∧
      shakeSizeParser.decode st field = (.ok size, (next st).2) ∧
      field.length = shakeSizeParser.sizeBytes := by
  refine ⟨putUint16 ((next st).1 ^^^ size), rfl, ?_, rfl⟩
  change (Except.ok ((next st).1 ^^^ uint16 (putUint16 ((next st).1 ^^^ size))), (next st).2) = _
  rw [uint16_putUint16, ← UInt16.xor_assoc, UInt16.xor_self, UInt16.zero_xor]

/-- The size parsers of bodies, and whether they seal the size. -/
inductive IsSizeParser : (authenticated : Bool) → (overhead : Nat) → ChunkSizeParser ParserState → Prop
  | plain {overhead : Nat} : IsSizeParser false overhead plainChunkSizeParser
  | shake {overhead : Nat} : IsSizeParser false overhead shakeSizeParser
  | aead {overhead : Nat} : IsSizeParser true overhead (aeadSizeParser overhead)

namespace IsSizeParser

variable {authenticated : Bool} {overhead : Nat} {sizeParser : ChunkSizeParser ParserState}

theorem decode_encode (h : IsSizeParser authenticated overhead sizeParser) {st : ParserState}
    (hvalid : Valid overhead st) (size : UInt16) :
    ∃ field st', sizeParser.encode st size = (.ok field, st') ∧
      sizeParser.decode st field = (.ok size, st') ∧ field.length = sizeParser.sizeBytes ∧
      Valid overhead st' ∧ st'.lengthAuth.aead = st.lengthAuth.aead ∧
      st'.lengthAuth.nonceGenerator =
        if authenticated then st.lengthAuth.nonceGenerator.next.2 else st.lengthAuth.nonceGenerator := by
  cases h with
  | plain =>
      exact ⟨_, st, rfl, by simp [plainChunkSizeParser, uint16_putUint16], rfl, hvalid, rfl, rfl⟩
  | shake =>
      obtain ⟨field, hencode, hdecode, hfield⟩ := shake_decode_encode st size
      exact ⟨field, _, hencode, hdecode, hfield, hvalid, rfl, rfl⟩
  | aead =>
      obtain ⟨hready, rfl⟩ := hvalid
      obtain ⟨sealed, lengthAuth, hseal, hopen, hlength, hready', haead, hgenerator⟩ :=
        AEADAuthenticator.sealBytes_spec hready
          (putUint16 (size - UInt16.ofNat st.lengthAuth.aead.overhead))
      refine ⟨sealed, { st with lengthAuth }, ?_, ?_, ?_, ⟨hready', by simp only [haead]⟩, haead,
        hgenerator⟩
      · simp only [aeadSizeParser, aeadChunkSizeParser, hseal]
      · simp only [aeadSizeParser, aeadChunkSizeParser, hopen, uint16_putUint16]
        rw [UInt16.sub_add_cancel]
      · rw [hlength, length_putUint16]
        rfl

theorem sizeBytes_le (h : IsSizeParser authenticated overhead sizeParser) :
    0 < sizeParser.sizeBytes ∧ sizeParser.sizeBytes ≤ 2 + overhead := by
  cases h <;> simp [plainChunkSizeParser, shakeSizeParser, aeadSizeParser, aeadChunkSizeParser]

end IsSizeParser

theorem nextPadding_shake_lt (st : ParserState) :
    (nextPadding (some shakePadding) st).1.toNat < 64 := by
  simp only [nextPadding, shakePadding, UInt16.toNat_mod]
  exact Nat.mod_lt _ (by decide)

/-- The padding generators of bodies. -/
inductive IsPadding : Option (PaddingLengthGenerator ParserState) → Prop
  | none : IsPadding .none
  | shake : IsPadding (some shakePadding)

theorem lawful_of {authenticated : Bool} {overhead : Nat} {sizeParser : ChunkSizeParser ParserState}
    {padding : Option (PaddingLengthGenerator ParserState)}
    (hparser : IsSizeParser authenticated overhead sizeParser) (hpadding : IsPadding padding) :
    Lawful sizeParser padding (Valid overhead) where
  sizeBytes_pos := hparser.sizeBytes_le.1
  decode_encode st size hvalid := by
    obtain ⟨field, st', hencode, hdecode, hfield, hvalid', -⟩ := hparser.decode_encode hvalid size
    exact ⟨field, st', hencode, hdecode, hfield, hvalid'⟩
  valid_nextPadding st hvalid := by
    cases hpadding <;> exact hvalid
  nextPadding_le st := by
    cases hpadding with
    | none => exact le_rfl
    | shake => exact (nextPadding_shake_lt st).le

theorem IsPadding.maxPadding_le {padding : Option (PaddingLengthGenerator ParserState)}
    (h : IsPadding padding) : maxPadding padding ≤ 64 := by
  cases h <;> simp [maxPadding, shakePadding]

theorem ready_newAuthenticator {aead : Cipher} {iv : Bytes} {nonceSize : Nat}
    (hsize : aead.nonceSize = nonceSize) (hiv : nonceSize ≤ iv.length) :
    (newAuthenticator aead iv nonceSize).Ready := by
  intro count
  simp only [newAuthenticator, generateChunkNonce, List.length_take, List.length_append,
    length_putUint16, List.length_drop, hsize]
  omega

/-- What bodies are made of. -/
inductive Body.Sound (transferType : TransferType) : Body → Prop
  | plain : Sound transferType .plain
  | chunkStream {authenticated : Bool} {overhead : Nat} {sizeParser : ChunkSizeParser ParserState}
      {state : ParserState} (hparser : IsSizeParser authenticated overhead sizeParser)
      (hvalid : Valid overhead state) : Sound transferType (.chunkStream sizeParser state)
  | authentication {authenticated : Bool} {overhead : Nat} {auth : AEADAuthenticator}
      {sizeParser : ChunkSizeParser ParserState} {padding : Option (PaddingLengthGenerator ParserState)}
      {state : ParserState} (hparser : IsSizeParser authenticated overhead sizeParser)
      (hpadding : IsPadding padding) (hvalid : Valid overhead state) (hready : auth.Ready)
      (hoverhead : auth.aead.overhead ≤ 16) (hoverhead' : overhead ≤ 16) :
      Sound transferType (.authentication auth sizeParser padding state transferType)

section Choice

variable (prim : Primitives) {key iv lengthKey lengthIV : Bytes} {request : RequestHeader} {body : Body}

/-- The key that the cipher of a security type is given for a key of 16 bytes. -/
def cipherKey (security : SecurityType) (key : Bytes) : Bytes :=
  if security = .aes128Gcm then key else generateChacha20Poly1305Key prim key

structure IsCipher (security : SecurityType) (newCipher : Bytes → Cipher) : Prop where
  nonceSize : ∀ key, (newCipher key).nonceSize = 12
  overhead : ∀ key, (newCipher key).overhead = 16
  key : ∀ key, (newCipher key).key = cipherKey prim security key

variable {prim}

theorem sealedBody_parts {newCipher : Bytes → Cipher}
    (hcipher : IsCipher prim request.security newCipher) (hiv : iv.length = 16)
    (hlengthIV : lengthIV.length = 16) {sizeParser : ChunkSizeParser ParserState}
    (hparser : IsSizeParser false 16 sizeParser)
    (padding : Option (PaddingLengthGenerator ParserState)) (shake : ByteStream) :
    ∃ sizeParser' lengthAuth,
      sealedBody newCipher key iv lengthKey lengthIV request sizeParser padding shake =
        .authentication (newAuthenticator (newCipher key) iv 12) sizeParser' padding
          { shake, lengthAuth } (transferType request.command) ∧
      lengthAuth = newAuthenticator (newCipher lengthKey) lengthIV 12 ∧
      IsSizeParser (has request.option requestOptionAuthenticatedLength) 16 sizeParser' ∧
      lengthAuth.Ready ∧ (newAuthenticator (newCipher key) iv 12).Ready := by
  refine ⟨_, _, by rw [sealedBody, hcipher.nonceSize], rfl, ?_, ?_, ?_⟩
  · cases has request.option requestOptionAuthenticatedLength
    · exact hparser
    · simp only [if_true, newAuthenticator, hcipher.overhead]
      exact .aead
  · exact ready_newAuthenticator (hcipher.nonceSize lengthKey) (by rw [hlengthIV]; decide)
  · exact ready_newAuthenticator (hcipher.nonceSize key) (by rw [hiv]; decide)

theorem newBody_cases (hbody : newBody prim key iv lengthKey lengthIV request = .ok body) :
    ∃ sizeParser padding, (∀ overhead, IsSizeParser false overhead sizeParser) ∧ IsPadding padding ∧
      (request.security = .none ∧
        (¬has request.option requestOptionChunkStream ∧ body = .plain ∨
          has request.option requestOptionChunkStream ∧ ∃ state, Valid 0 state ∧
            (body = .chunkStream sizeParser state ∨ transferType request.command = .packet ∧
              ∃ auth : AEADAuthenticator, auth.Ready ∧ auth.aead.overhead = 0 ∧
                body = .authentication auth sizeParser padding state .packet)) ∨
        request.security ≠ .none ∧ ∃ newCipher : Bytes → Cipher, IsCipher prim request.security newCipher ∧
          body = sealedBody newCipher key iv lengthKey lengthIV request sizeParser padding
            { byte := prim.shake128 iv }) := by
  simp only [newBody] at hbody
  have hparser : ∀ overhead, IsSizeParser false overhead
      (if has request.option requestOptionChunkMasking then shakeSizeParser else plainChunkSizeParser) := by
    intro overhead
    split_ifs
    · exact .shake
    · exact .plain
  have hpadding : IsPadding
      (if has request.option requestOptionGlobalPadding then some shakePadding else none) := by
    split_ifs
    · exact .shake
    · exact .none
  have hready : (⟨noOpAuthenticator, generateEmptyBytes, some generateEmptyBytes⟩ :
      AEADAuthenticator).Ready := fun _ => rfl
  refine ⟨_, _, hparser, hpadding, ?_⟩
  generalize (if has request.option requestOptionChunkMasking then shakeSizeParser
    else plainChunkSizeParser) = sizeParser at hbody ⊢
  generalize (if has request.option requestOptionGlobalPadding then some shakePadding
    else none) = padding at hbody ⊢
  by_cases hoption : has request.option requestOptionGlobalPadding = true ∧
      ¬has request.option requestOptionChunkMasking = true
  · rw [if_pos hoption] at hbody
    cases hbody
  rw [if_neg hoption] at hbody
  cases hsecurity : request.security <;> simp only [hsecurity] at hbody
  case none =>
    refine .inl ⟨rfl, ?_⟩
    split_ifs at hbody with hchunk
    · cases htype : transferType request.command <;> simp only [htype] at hbody
      · exact .inr ⟨hchunk, _, ⟨hready, rfl⟩, .inl (Except.ok.inj hbody).symm⟩
      · exact .inr ⟨hchunk, _, ⟨hready, rfl⟩, .inr ⟨rfl, _, hready, rfl, (Except.ok.inj hbody).symm⟩⟩
    · exact .inl ⟨hchunk, (Except.ok.inj hbody).symm⟩
  case aes128Gcm =>
    exact .inr ⟨nofun, _, ⟨prim.gcm_nonceSize, prim.gcm_overhead, prim.gcm_key⟩, (Except.ok.inj hbody).symm⟩
  case chacha20Poly1305 =>
    exact .inr ⟨nofun, _, ⟨fun _ => prim.chacha20Poly1305_nonceSize _,
      fun _ => prim.chacha20Poly1305_overhead _, fun _ => prim.chacha20Poly1305_key _⟩,
      (Except.ok.inj hbody).symm⟩
  all_goals cases hbody

theorem newBody_sound (hiv : iv.length = 16) (hlengthIV : lengthIV.length = 16)
    (hbody : newBody prim key iv lengthKey lengthIV request = .ok body) :
    body.Sound (transferType request.command) := by
  obtain ⟨sizeParser, padding, hparser, hpadding, ⟨-, ⟨-, rfl⟩ |
    ⟨-, state, hvalid, rfl | ⟨htype, auth, hready, hoverhead, rfl⟩⟩⟩ | ⟨-, newCipher, hcipher, rfl⟩⟩ :=
    newBody_cases hbody
  · exact .plain
  · exact .chunkStream (hparser 0) hvalid
  · rw [htype]
    exact .authentication (hparser 0) hpadding hvalid hready (by omega) (by decide)
  · obtain ⟨sizeParser', lengthAuth, hsealed, rfl, hparser', hlengthReady, hready⟩ :=
      @sealedBody_parts prim key iv lengthKey lengthIV request _ hcipher hiv hlengthIV _ (hparser 16)
        padding { byte := prim.shake128 iv }
    rw [hsealed]
    exact .authentication hparser' hpadding ⟨hlengthReady, hcipher.overhead lengthKey⟩ hready
      (hcipher.overhead key).le le_rfl

/-- Whether a body tells where it ends: only one in the clear that is not cut into chunks does not. -/
def RequestHeader.Framed (request : RequestHeader) : Prop :=
  request.security = .none → request.option.toNat % 2 = 1

instance (request : RequestHeader) : Decidable request.Framed :=
  inferInstanceAs (Decidable (request.security = .none → request.option.toNat % 2 = 1))

theorem has_chunkStream_iff (option : UInt8) :
    has option requestOptionChunkStream = true ↔ option.toNat % 2 = 1 := by
  rw [has, bne_iff_ne, ne_eq, ← UInt8.toNat_inj, UInt8.toNat_and]
  change ¬option.toNat &&& 1 = 0 ↔ _
  rw [Nat.and_one_is_mod]
  omega

/-- The header decides which body is plain. -/
theorem newBody_eq_plain_iff (hbody : newBody prim key iv lengthKey lengthIV request = .ok body) :
    body = .plain ↔ ¬request.Framed := by
  rw [RequestHeader.Framed, ← has_chunkStream_iff]
  obtain ⟨sizeParser, padding, -, -, ⟨hsecurity, ⟨hchunk, rfl⟩ | ⟨hchunk, state, -, rfl | ⟨-, auth, -, -, rfl⟩⟩⟩ |
    ⟨hsecurity, newCipher, -, rfl⟩⟩ := newBody_cases hbody
  · exact iff_of_true rfl fun h => hchunk (h hsecurity)
  · exact iff_of_false nofun fun h => h fun _ => hchunk
  · exact iff_of_false nofun fun h => h fun _ => hchunk
  · exact iff_of_false nofun fun h => h fun hnone => absurd hnone hsecurity

end Choice

section Writers

/-- A write either fails, for a length that 32 bits do not hold, or it leaves whole chunks on the wire. -/
theorem BodyWriter.writeAll_spec {τ : Type} {Chunk : τ → Bytes → Bytes → τ → Prop}
    {At : BodyWriter → τ → Prop}
    (hstep : ∀ w st (mb : MultiBuffer ρ), At w st → (∀ b ∈ mb, b.len ≤ size) →
      (2 ^ 31 ≤ mb.len ∧ ∃ err w', w.writeMultiBuffer mb = (.error err, w')) ∨
      ∃ payloads chunks w' st', w.writeMultiBuffer mb = (.ok chunks, w') ∧ At w' st' ∧
        Wire Chunk st payloads chunks st' ∧ Cut mb.bytes payloads)
    (writes : List (MultiBuffer ρ)) (hsizes : ∀ mb ∈ writes, ∀ b ∈ mb, b.len ≤ size)
    {w : BodyWriter} {st : τ} (hat : At w st) :
    ((∃ mb ∈ writes, 2 ^ 31 ≤ mb.len) ∧ ∃ err w', w.writeAll writes = (.error err, w')) ∨
    ∃ payloads wire w' last, w.writeAll writes = (.ok wire, w') ∧ Wire Chunk st payloads wire last ∧
      (untilEmpty payloads).flatten = (untilEmpty (writes.map MultiBuffer.bytes)).flatten ∧
      ([] ∈ payloads ↔ [] ∈ writes.map MultiBuffer.bytes) := by
  induction writes generalizing w st with
  | nil => exact .inr ⟨[], [], w, st, rfl, .nil st, rfl, Iff.rfl⟩
  | cons mb writes ih =>
      obtain ⟨hlong, err, w', hwrite⟩ | ⟨payloads, chunks, w', st', hwrite, hat', hwire, hcut⟩ :=
        hstep w st mb hat (hsizes mb List.mem_cons_self)
      · exact .inl ⟨⟨mb, List.mem_cons_self, hlong⟩, err, w', by simp only [writeAll, hwrite]⟩
      obtain ⟨⟨mb', hmb', hlong⟩, err, w'', hwrites⟩ |
          ⟨payloads', wire, w'', last, hwrites, hwire', hflatten, hmem⟩ :=
        ih (fun mb' hmb' => hsizes mb' (List.mem_cons_of_mem _ hmb')) hat'
      · exact .inl ⟨⟨mb', List.mem_cons_of_mem _ hmb', hlong⟩, err, w'', by
          simp only [writeAll, hwrite, hwrites]⟩
      · refine .inr ⟨payloads ++ payloads', chunks ++ wire, w'', last, ?_, hwire.append hwire',
          hcut.untilEmpty_append hflatten hmem⟩
        simp only [writeAll, hwrite, hwrites]

inductive ChunkStreamAt (overhead : Nat) (sizeParser : ChunkSizeParser ParserState) :
    BodyWriter → ParserState → Prop
  | intro {w : ChunkStreamWriter ParserState} (hparser : w.sizeEncoder = sizeParser)
      (hvalid : Valid overhead w.state) : ChunkStreamAt overhead sizeParser (.chunkStream w) w.state

theorem ChunkStreamAt.step {authenticated : Bool} {overhead : Nat}
    {sizeParser : ChunkSizeParser ParserState} (hparser : IsSizeParser authenticated overhead sizeParser)
    (w : BodyWriter) (st : ParserState) (mb : MultiBuffer ρ)
    (hat : ChunkStreamAt overhead sizeParser w st) (hsizes : ∀ b ∈ mb, b.len ≤ size) :
    (2 ^ 31 ≤ mb.len ∧ ∃ err w', w.writeMultiBuffer mb = (.error err, w')) ∨
    ∃ payloads chunks w' st', w.writeMultiBuffer mb = (.ok chunks, w') ∧
      ChunkStreamAt overhead sizeParser w' st' ∧
      Wire (PlainChunk sizeParser) st payloads chunks st' ∧ Cut mb.bytes payloads := by
  obtain @⟨writer, heq, hvalid⟩ := hat
  by_cases hroom : 0 ≤ capacity mb
  · obtain ⟨payloads, chunks, w', hwrite, heq', hvalid', hwire, hcut⟩ :=
      writeMultiBuffer_spec (lawful_of hparser .none) heq hvalid mb hsizes hroom
    refine .inr ⟨payloads, chunks, .chunkStream w', w'.state, ?_, .intro heq' hvalid', hwire, hcut⟩
    simp only [BodyWriter.writeMultiBuffer, hwrite]
  · refine .inl ⟨not_lt.mp fun hlen => hroom (capacity_nonneg hlen), .panicked,
      .chunkStream writer, ?_⟩
    rw [BodyWriter.writeMultiBuffer, writeMultiBuffer, if_pos (not_le.mp hroom)]

inductive AuthenticationAt (overhead : Nat) (sizeParser : ChunkSizeParser ParserState)
    (padding : Option (PaddingLengthGenerator ParserState)) (aead : Cipher) :
    BodyWriter → AEADAuthenticator × ParserState → Prop
  | intro {w : AuthenticationWriter ParserState}
      (hgood : w.Good sizeParser padding (Valid overhead) aead) (hstream : w.transferType = .stream) :
      AuthenticationAt overhead sizeParser padding aead (.authentication w) (w.auth, w.state)

theorem AuthenticationAt.step {authenticated : Bool} {overhead : Nat}
    {sizeParser : ChunkSizeParser ParserState} {padding : Option (PaddingLengthGenerator ParserState)}
    {aead : Cipher} (hparser : IsSizeParser authenticated overhead sizeParser) (hpadding : IsPadding padding)
    (haead : aead.overhead ≤ 16) (hoverhead : overhead ≤ 16) (w : BodyWriter)
    (st : AEADAuthenticator × ParserState) (mb : MultiBuffer ρ)
    (hat : AuthenticationAt overhead sizeParser padding aead w st) (_ : ∀ b ∈ mb, b.len ≤ size) :
    (2 ^ 31 ≤ mb.len ∧ ∃ err w', w.writeMultiBuffer mb = (.error err, w')) ∨
    ∃ payloads chunks w' st', w.writeMultiBuffer mb = (.ok chunks, w') ∧
      AuthenticationAt overhead sizeParser padding aead w' st' ∧
      Wire (SealedChunk sizeParser padding) st payloads chunks st' ∧ Cut mb.bytes payloads := by
  obtain ⟨hgood, hstream⟩ := hat
  have hroom : aead.overhead + sizeParser.sizeBytes + maxPadding padding < size := by
    have hbytes := hparser.sizeBytes_le.2
    have hmax := hpadding.maxPadding_le
    rw [size]
    omega
  obtain ⟨payloads, chunks, w', hwrite, hgood', hstream', hwire, hcut⟩ :=
    AuthenticationWriter.writeMultiBuffer_stream (lawful_of hparser hpadding) hroom hgood hstream mb
  refine .inr ⟨payloads, chunks, .authentication w', _, ?_, .intro hgood' hstream', hwire, hcut⟩
  simp only [BodyWriter.writeMultiBuffer, hwrite]

end Writers

theorem copyInternal_map {σ σ' τ : Type} {read : σ → Except Error (MultiBuffer ρ) × σ}
    {read' : σ' → Except Error (MultiBuffer ρ) × σ'} (wrap : σ → σ')
    (hread : ∀ r, read' (wrap r) = ((read r).1, wrap (read r).2))
    (write : τ → MultiBuffer ρ → Except Error τ) (fuel : Nat) (r : σ) (w : τ) :
    copyInternal read' write fuel (wrap r) w =
      ((copyInternal read write fuel r w).1, wrap (copyInternal read write fuel r w).2.1,
        (copyInternal read write fuel r w).2.2) := by
  induction fuel generalizing r w with
  | zero => rfl
  | succ fuel ih =>
      simp only [copyInternal, hread]
      rcases read r with ⟨_ | mb, r'⟩
      · rfl
      · simp only
        split_ifs
        · exact ih r' w
        · cases write w mb with
          | error err => rfl
          | ok w' => exact ih r' w'

namespace BodyReader

/-- The bytes on the wire that were not read yet. -/
def content : BodyReader ρ → Bytes
  | plain reader => reader.flatMap MultiBuffer.bytes
  | chunkStream r => r.reader.content
  | authentication r => r.reader.content

theorem readMultiBuffer_chunkStream (r : ChunkStreamReader ParserState ρ) :
    (chunkStream r).readMultiBuffer = (r.readMultiBuffer.1, chunkStream r.readMultiBuffer.2) := rfl

theorem readMultiBuffer_authentication (r : AuthenticationReader ParserState ρ) :
    (authentication r).readMultiBuffer = (r.readMultiBuffer.1, authentication r.readMultiBuffer.2) := rfl

theorem copyInternal_plain (reader : List (MultiBuffer ρ)) (fuel : Nat) (hfuel : reader.length < fuel)
    (kept : MultiBuffer ρ) :
    ∃ kept', copyInternal readMultiBuffer keep fuel (plain reader) kept =
        (.readError .eof, plain [], kept') ∧
      kept'.bytes = kept.bytes ++ reader.flatMap MultiBuffer.bytes := by
  induction reader generalizing fuel kept with
  | nil =>
      obtain ⟨fuel, rfl⟩ := Nat.exists_eq_succ_of_ne_zero hfuel.ne_bot
      exact ⟨kept, rfl, by simp⟩
  | cons mb reader ih =>
      obtain ⟨fuel, rfl⟩ := Nat.exists_eq_succ_of_ne_zero (Nat.ne_zero_of_lt hfuel)
      have hfuel' : reader.length < fuel := Nat.lt_of_succ_lt_succ hfuel
      by_cases hempty : mb.isEmpty
      · obtain ⟨kept', hcopy, hkept⟩ := ih fuel hfuel' kept
        refine ⟨kept', ?_, by simp [hkept, (MultiBuffer.isEmpty_iff _).mp hempty]⟩
        simpa only [copyInternal, readMultiBuffer, hempty, if_true] using hcopy
      · obtain ⟨kept', hcopy, hkept⟩ := ih fuel hfuel' (kept ++ mb)
        refine ⟨kept', ?_, by simp [hkept, MultiBuffer.bytes_append]⟩
        simpa only [copyInternal, readMultiBuffer, hempty, Bool.false_eq_true, if_false, keep] using
          hcopy

end BodyReader

/-- What the reader of a body is to return for a list of writes: where the body tells its end, all up to
the first that is empty. -/
def RequestHeader.delivered (request : RequestHeader) (writes : List (MultiBuffer ρ)) : Bytes :=
  if request.Framed then (untilEmpty (writes.map MultiBuffer.bytes)).flatten
  else writes.flatMap MultiBuffer.bytes

/-- Reading from `r` to the end gives what is to be delivered for the writes. -/
def Returns (request : RequestHeader) (r : BodyReader ρ) (writes : List (MultiBuffer ρ)) : Prop :=
  ∃ bound, ∀ fuel, bound ≤ fuel → ∃ r' kept,
    copyInternal BodyReader.readMultiBuffer keep fuel r [] = (.readError .eof, r', kept) ∧
      kept.bytes = request.delivered writes ∧
      ((∀ mb ∈ writes, mb.isEmpty = false) → r'.content = [])

theorem bytes_map_asBuffer (payloads : List Bytes) :
    MultiBuffer.bytes (payloads.map (asBuffer (ρ := ρ))) = payloads.flatten := by
  simp [MultiBuffer.bytes, List.flatMap_map, asBuffer, List.flatMap_id']

theorem nil_not_mem_bytes {writes : List (MultiBuffer ρ)} (h : ∀ mb ∈ writes, mb.isEmpty = false) :
    [] ∉ writes.map MultiBuffer.bytes := by
  intro hmem
  obtain ⟨mb, hmb, hnil⟩ := List.mem_map.mp hmem
  exact (MultiBuffer.isEmpty_eq_false_iff mb).mp (h mb hmb) hnil

theorem BodyWriter.writeAll_plain (writes : List (MultiBuffer ρ)) :
    plain.writeAll writes = (.ok (writes.flatMap MultiBuffer.bytes), plain) := by
  induction writes with
  | nil => rfl
  | cons mb writes ih => simp only [writeAll, writeMultiBuffer, ih, List.flatMap_cons]

theorem Body.Sound.returns {body : Body} (hsound : body.Sound .stream) {request : RequestHeader}
    (hplain : body = .plain ↔ ¬request.Framed) (random : ByteStream)
    (writes : List (MultiBuffer ρ)) (hsizes : ∀ mb ∈ writes, ∀ b ∈ mb, b.len ≤ size) :
    ((∃ mb ∈ writes, 2 ^ 31 ≤ mb.len) ∧
      ∃ err w', (body.writer random).writeAll writes = (.error err, w')) ∨
    ∃ wire w', (body.writer random).writeAll writes = (.ok wire, w') ∧
      ∀ reader : List (MultiBuffer ρ), reader.flatMap MultiBuffer.bytes = wire →
        Returns request (body.reader reader) writes := by
  cases hsound with
  | plain =>
      refine .inr ⟨_, _, BodyWriter.writeAll_plain writes, ?_⟩
      intro reader hreader
      have hdelivered : request.delivered writes = writes.flatMap MultiBuffer.bytes :=
        if_neg (hplain.mp rfl)
      refine ⟨reader.length + 1, fun fuel hfuel => ?_⟩
      obtain ⟨kept, hcopy, hkept⟩ := BodyReader.copyInternal_plain reader fuel hfuel []
      exact ⟨_, kept, hcopy, by rw [hkept, hreader, hdelivered]; rfl, fun _ => rfl⟩
  | @chunkStream _ _ sizeParser state hparser hvalid =>
      obtain hlong | ⟨payloads, wire, w', last, hwrite, hwire, hflatten, hmem⟩ :=
        BodyWriter.writeAll_spec (ChunkStreamAt.step hparser) writes hsizes
          (.intro (w := { sizeEncoder := sizeParser, state }) rfl hvalid)
      · exact .inl hlong
      have hframed : request.Framed := not_not.mp (hplain.not.mp fun h => by cases h)
      refine .inr ⟨wire, w', hwrite, fun reader hreader => ?_⟩
      let r : ChunkStreamReader ParserState ρ := { sizeDecoder := sizeParser, state, reader := { reader } }
      have hawaits : r.Awaits last payloads := by
        refine .fresh hparser.sizeBytes_le.1 rfl ?_
        simpa [r, BufferedReader.content, hreader] using hwire
      refine ⟨r.reader.weight + 1, fun fuel hfuel => ?_⟩
      obtain ⟨r', kept, hcopy, hkept, hcontent⟩ :=
        ChunkStreamReader.copyInternal_spec fuel hawaits [] hfuel
      refine ⟨.chunkStream r', kept, ?_, ?_, fun hne => ?_⟩
      · rw [Body.reader, copyInternal_map BodyReader.chunkStream BodyReader.readMultiBuffer_chunkStream,
          hcopy]
      · rw [hkept, hflatten, RequestHeader.delivered, if_pos hframed]
        rfl
      · exact hcontent (hmem.not.mpr (nil_not_mem_bytes hne))
  | @authentication _ _ auth sizeParser padding state hparser hpadding hvalid hready haead hoverhead =>
      obtain hlong | ⟨payloads, wire, w', last, hwrite, hwire, hflatten, hmem⟩ :=
        BodyWriter.writeAll_spec (AuthenticationAt.step hparser hpadding haead hoverhead) writes hsizes
          (.intro (w := { auth, sizeParser, padding, state, transferType := .stream, random })
            ⟨rfl, rfl, rfl, hvalid, hready⟩ rfl)
      · exact .inl hlong
      have hframed : request.Framed := not_not.mp (hplain.not.mp fun h => by cases h)
      refine .inr ⟨wire, w', hwrite, fun reader hreader => ?_⟩
      let r : AuthenticationReader ParserState ρ :=
        { auth, sizeParser, padding, state, reader := { reader } }
      have hawaits : r.Awaits last payloads := by
        refine .fresh rfl hparser.sizeBytes_le.1 rfl ?_
        simpa [r, BufferedReader.content, hreader] using hwire
      refine ⟨payloads.length + 1, fun fuel hfuel => ?_⟩
      obtain ⟨r', hcopy, hcontent⟩ := AuthenticationReader.copyInternal_spec fuel hawaits [] hfuel
      refine ⟨.authentication r', [] ++ (untilEmpty payloads).map asBuffer, ?_, ?_, fun hne => ?_⟩
      · rw [Body.reader, copyInternal_map BodyReader.authentication
          BodyReader.readMultiBuffer_authentication, hcopy]
      · rw [List.nil_append, bytes_map_asBuffer, hflatten, RequestHeader.delivered, if_pos hframed]
      · exact hcontent (hmem.not.mpr (nil_not_mem_bytes hne))

section Members

/-- A body that can be encoded can be decoded. Writes succeed unless 32 bits do not hold a length, and from
any cut of the wire the reader returns what was written: up to the first empty write if the body is framed,
where it reports the end, and otherwise all of it, with the end only after the last byte of the wire. -/
def Faithful (request : RequestHeader) (encode : Except Error BodyWriter)
    (decode : List (MultiBuffer ρ) → Except Error (BodyReader ρ)) : Prop :=
  ∀ w, encode = .ok w → (∀ reader, ∃ r, decode reader = .ok r) ∧
    ∀ writes : List (MultiBuffer ρ), (∀ mb ∈ writes, ∀ b ∈ mb, b.len ≤ size) →
      ((∃ mb ∈ writes, 2 ^ 31 ≤ mb.len) ∧ ∃ err w', w.writeAll writes = (.error err, w')) ∨
      ∃ wire w', w.writeAll writes = (.ok wire, w') ∧
        ∀ reader r, reader.flatMap MultiBuffer.bytes = wire → decode reader = .ok r →
          Returns request r writes

variable (prim : Primitives) (s : Session) (request : RequestHeader)

theorem faithful_of_sound {body : Except Error Body}
    (hsound : ∀ b, body = .ok b → b.Sound .stream ∧ (b = .plain ↔ ¬request.Framed))
    (random : ByteStream) :
    Faithful request (body.map (Body.writer random)) fun reader : List (MultiBuffer ρ) =>
      body.map (Body.reader reader) := by
  intro w hw
  cases body with
  | error err => cases hw
  | ok body =>
      obtain rfl := Except.ok.inj hw
      refine ⟨fun reader => ⟨_, rfl⟩, fun writes hsizes => ?_⟩
      obtain ⟨hsound, hplain⟩ := hsound body rfl
      obtain hlong | ⟨wire, w', hwrite, hreturns⟩ := hsound.returns hplain random writes hsizes
      · exact .inl hlong
      refine .inr ⟨wire, w', hwrite, fun reader r hreader hr => ?_⟩
      obtain rfl := Except.ok.inj hr
      exact hreturns reader hreader

theorem length_responseBodyIV : (s.responseBodyIV prim).length = 16 := by
  rw [Session.responseBodyIV, List.length_take, prim.length_sha256]
  decide

/-- **The bodies of VMess requests and responses decode to what was written.** -/
theorem bodies_delivered (random : ByteStream) (hstream : request.command ≠ requestCommandUDP) :
    Faithful (ρ := ρ) request (encodeRequestBody prim s request random)
        (decodeRequestBody prim s request) ∧
      Faithful (ρ := ρ) request (encodeResponseBody prim s request random)
        (decodeResponseBody prim s request) := by
  have hiv : s.requestBodyIV.toList.length = 16 := s.requestBodyIV.toList_length
  have htype : transferType request.command = .stream := if_neg hstream
  refine ⟨faithful_of_sound request (fun body hbody => ⟨?_, newBody_eq_plain_iff hbody⟩) random,
    faithful_of_sound request (fun body hbody => ⟨?_, newBody_eq_plain_iff hbody⟩) random⟩
  · rw [← htype]
    exact newBody_sound hiv hiv hbody
  · rw [← htype]
    exact newBody_sound (length_responseBodyIV prim s) hiv hbody

end Members

/-- Hash functions that can be computed, with the ciphers that only append their tag. -/
def Primitives.counting : Primitives :=
  { Suite.tagging with
    shake128 := fun _ i => UInt8.ofNat i
    md5 := fun b => (b ++ List.replicate 16 1).take 16
    sha256 := fun b => (b ++ List.replicate 32 2).take 32
    kdf16 := fun key _ => key.reverse
    length_sha256 := fun b => by simp }

def Session.zero : Session where
  requestBodyKey := List.Vector.replicate 16 0
  requestBodyIV := List.Vector.replicate 16 0

/-- A stream with masked sizes, padding and authenticated lengths. -/
def RequestHeader.padded : RequestHeader := { command := 1, option := 0x1d, security := .aes128Gcm }

theorem bodies_delivered_padded :
    (∃ w, encodeRequestBody .counting .zero .padded { byte := fun _ => 0 } = .ok w) ∧
      Faithful (ρ := Unit) .padded (encodeRequestBody .counting .zero .padded { byte := fun _ => 0 })
        (decodeRequestBody .counting .zero .padded) :=
  ⟨⟨_, rfl⟩, (bodies_delivered .counting .zero .padded { byte := fun _ => 0 } (by decide)).1⟩

/-- Two gibibytes in buffers of 8192 bytes. -/
def twoGibibytes : MultiBuffer Unit :=
  List.replicate (2 ^ 18 - 1) { bytes := List.replicate size 0 } ++ [{ bytes := List.replicate size 0 }]

theorem capacity_twoGibibytes : capacity twoGibibytes < 0 := by
  have hlast : ({ bytes := List.replicate size 0 } : Buffer Unit).len = size := List.length_replicate
  have hfront : MultiBuffer.len (List.replicate (2 ^ 18 - 1) ({ bytes := List.replicate size 0 } : Buffer Unit)) =
      2 ^ 31 - size := by
    rw [MultiBuffer.len, MultiBuffer.bytes, List.length_flatMap, List.map_replicate, List.sum_replicate,
      List.length_replicate]
    norm_num [size]
  have hfold := mbLen_eq (hfront.trans_lt (by decide))
  have hlen : mbLen twoGibibytes = -2 ^ 31 := by
    rw [mbLen] at hfold
    rw [mbLen, twoGibibytes, List.foldl_append, hfold, hfront, List.foldl_cons, List.foldl_nil, hlast]
    decide +kernel
  rw [capacity, hlen]
  decide +kernel

theorem writeAll_of_capacity {w : ChunkStreamWriter ParserState} {mb : MultiBuffer Unit}
    (hmb : capacity mb < 0) :
    ((BodyWriter.chunkStream w).writeAll [mb]).1 = .error .panicked := by
  rw [BodyWriter.writeAll, BodyWriter.writeMultiBuffer, writeMultiBuffer, if_pos hmb]

/-- Thirty-two bits do not hold the length of a write of two gibibytes. -/
theorem bodies_refuse_two_gibibytes :
    (∀ b ∈ twoGibibytes, b.len = size) ∧
      ∃ w, encodeRequestBody .counting .zero { command := 1, option := 1, security := .none }
          { byte := fun _ => 0 } = .ok w ∧
        (w.writeAll [twoGibibytes]).1 = .error .panicked := by
  refine ⟨fun b hb => ?_, _, rfl, writeAll_of_capacity capacity_twoGibibytes⟩
  obtain hfront | hlast := List.mem_append.mp hb
  · rw [List.eq_of_mem_replicate hfront]
    exact List.length_replicate
  · rw [List.mem_singleton.mp hlast]
    exact List.length_replicate

end V2RootCore.Vmess
