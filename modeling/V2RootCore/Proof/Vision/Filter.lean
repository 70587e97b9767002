import V2RootCore.Vision.Filter
import V2RootCore.Proof.Go.Slices

/-!
# Filtering reads only what was received

The one read that can leave the content is the one of the cipher suite. While it stays inside, the state is a
function of the contents. Splicing is then enabled only for the cipher suite of a record with the marker, as long
as no short ServerHello takes over the cipher suite of an earlier one.
-/

namespace V2RootCore.Vision

open Go Transition

/-- The cipher suite, if it is read, lies inside the content. -/
def ReadsInside (b : Bytes) : Prop := readsCipher b = true → cipherEnd b ≤ b.length

namespace TrafficState

variable {s : TrafficState} {b : Bytes} {memory memory' : Nat → UInt8}

/-- What a ServerHello at the start of a buffer does to the state. -/
theorem filterHello_server (hstart : startsServerHello b = true) :
    s.filterHello memory b =
      { s with
        remainingServerHello := recordLength b
        isTLS12orAbove := true
        isTLS := true
        cipher :=
          if readsCipher b then
            uint16 [b[43 + (b.getD 43 0).toNat + 1]?.getD (memory (43 + (b.getD 43 0).toNat + 1)),
              b[43 + (b.getD 43 0).toNat + 2]?.getD (memory (43 + (b.getD 43 0).toNat + 2))]
          else s.cipher } := by
  have hreads : readsCipher b = true ↔ 79 ≤ b.length ∧ 79 ≤ recordLength b := by
    simp [readsCipher, hstart]
  obtain ⟨hlong, hserver⟩ : 6 ≤ b.length ∧
      b.take 3 = tlsServerHandShakeStart ∧ b[5]? = some tlsHandshakeTypeServerHello := by
    simpa [startsServerHello] using hstart
  have hrecord : ((uint16 (b.drop 3)).toNat : Int) + 5 = (recordLength b : Nat) := by
    unfold recordLength
    push_cast
    rfl
  rw [filterHello, if_pos hlong, if_pos hserver]
  dsimp only
  rw [hrecord]
  by_cases hcipher : 79 ≤ b.length ∧ 79 ≤ recordLength b
  · rw [if_pos (by exact ⟨hcipher.1, by exact_mod_cast hcipher.2⟩), if_pos (hreads.mpr hcipher)]
  · rw [if_neg (by exact fun h => hcipher ⟨h.1, by exact_mod_cast h.2⟩), if_neg (fun h => hcipher (hreads.mp h))]

theorem filterHello_other (s : TrafficState) (memory : Nat → UInt8) (hstart : startsServerHello b = false) :
    (s.filterHello memory b).cipher = s.cipher ∧
      (s.filterHello memory b).remainingServerHello = s.remainingServerHello ∧
      (s.filterHello memory b).enableXtls = s.enableXtls := by
  unfold filterHello
  split
  · next hlong =>
      rw [if_neg (by simpa [startsServerHello, hlong] using hstart)]
      split <;> exact ⟨rfl, rfl, rfl⟩
  · exact ⟨rfl, rfl, rfl⟩

/-- If the cipher suite lies inside the content, what is behind it does not matter. -/
theorem filterHello_memory (hinside : ReadsInside b) :
    s.filterHello memory b = s.filterHello memory' b := by
  cases hstart : startsServerHello b with
  | true =>
      rw [filterHello_server hstart, filterHello_server hstart]
      by_cases hreads : readsCipher b = true
      · have hend := hinside hreads
        unfold cipherEnd at hend
        simp only [if_pos hreads, List.getElem?_eq_getElem (show 43 + (b.getD 43 0).toNat + 1 < b.length by omega),
          List.getElem?_eq_getElem (show 43 + (b.getD 43 0).toNat + 2 < b.length by omega), Option.getD_some]
      · simp only [if_neg hreads]
  | false =>
      unfold filterHello
      split
      · next hlong =>
          have hserver : ¬ (b.take 3 = tlsServerHandShakeStart ∧ b[5]? = some tlsHandshakeTypeServerHello) := by
            simpa [startsServerHello, hlong] using hstart
          rw [if_neg hserver, if_neg hserver]
      · rfl

theorem filterBuffer_memory (memory' : Nat → UInt8) (hinside : ReadsInside b) :
    s.filterBuffer memory b = s.filterBuffer memory' b := by
  rw [filterBuffer, filterBuffer, filterHello_memory hinside]

/-- A condition on the state and the buffer, for every buffer of a call that is examined. -/
def Throughout (condition : TrafficState → Bytes → Prop) : TrafficState → List Bytes → Prop
  | _, [] => True
  | s, b :: buffer =>
      condition s b ∧ ((s.filterBuffer (fun _ => 0) b).2 = true →
        Throughout condition (s.filterBuffer (fun _ => 0) b).1 buffer)

/-- The cipher suites that are read in a call lie inside the contents of their buffers. -/
def Inside : TrafficState → List Bytes → Prop := Throughout fun _ b => ReadsInside b

theorem filterBacked_of_inside {buffer : List Backed} (h : s.Inside (buffer.map Backed.content)) :
    s.filterBacked buffer = .ok (s.filterContents (buffer.map Backed.content)) := by
  induction buffer generalizing s with
  | nil => rfl
  | cons b buffer ih =>
      obtain ⟨hinside, hrest⟩ := h
      have hreads : ¬ (readsCipher b.content = true ∧
          b.content.length + b.behind.length < cipherEnd b.content) := by
        rintro ⟨hreads, hend⟩
        have := hinside hreads
        omega
      rw [filterBacked, if_neg hreads, filterContents, List.map_cons, xtlsFilterTls,
        filterBuffer_memory (fun _ => 0) hinside]
      generalize hnext : s.filterBuffer (fun _ => 0) b.content = next at hrest
      obtain ⟨next, continues⟩ := next
      cases continues with
      | true => exact ih (hrest rfl)
      | false => rfl

/-- With nothing behind the contents, a call that does not panic reads inside them. -/
theorem inside_of_filterBacked {buffer : List Bytes} {s' : TrafficState}
    (hok : s.filterBacked (buffer.map fun b => ⟨b, []⟩) = .ok s') : s.Inside buffer := by
  induction buffer generalizing s with
  | nil => trivial
  | cons b buffer ih =>
      rw [List.map_cons, filterBacked] at hok
      split at hok
      · cases hok
      · next hreads =>
          have hinside : ReadsInside b := by
            intro hcipher
            by_contra hend
            exact hreads ⟨hcipher, by simpa using hend⟩
          refine ⟨hinside, fun hcontinues => ih ?_⟩
          rw [filterBuffer_memory (fun _ => 0) hinside] at hok
          generalize s.filterBuffer (fun _ => 0) b = next at hok hcontinues ⊢
          obtain ⟨next, continues⟩ := next
          dsimp only at hcontinues
          subst hcontinues
          exact hok

/-- The state after all calls is a function of the contents: whatever is behind them, no call panics and the
state is the same. -/
def Determined (s : TrafficState) (calls : List (List Bytes)) : Prop :=
  ∃ s', ∀ backed : List (List Backed), backed.map (List.map Backed.content) = calls →
    s.filterCalls backed = .ok s'

theorem determined_iff (calls : List (List Bytes)) :
    s.Determined calls ↔ Along filterContents Inside s calls := by
  constructor
  · rintro ⟨s', hall⟩
    have hok := hall (calls.map (List.map fun b => ⟨b, []⟩)) (by simp [Function.comp_def])
    clear hall
    induction calls generalizing s with
    | nil => trivial
    | cons buffer calls ih =>
        rw [List.map_cons, filterCalls, List.foldlM_cons] at hok
        obtain ⟨next, hnext, hrest⟩ := bind_eq_ok.mp hok
        have hinside := inside_of_filterBacked hnext
        have hcontents : (buffer.map fun b => (⟨b, []⟩ : Backed)).map Backed.content = buffer := by
          simp [Function.comp_def]
        rw [filterBacked_of_inside (by rw [hcontents]; exact hinside), hcontents] at hnext
        obtain rfl := Except.ok.inj hnext
        exact ⟨hinside, ih hrest⟩
  · intro halong
    refine ⟨Transition.run filterContents s calls, ?_⟩
    intro backed hbacked
    subst hbacked
    induction backed generalizing s with
    | nil => rfl
    | cons buffer backed ih =>
        obtain ⟨hinside, hrest⟩ := halong
        rw [filterCalls, List.foldlM_cons, filterBacked_of_inside hinside, ok_bind]
        exact ih hrest

end TrafficState

section Enabled

/-- A cipher suite of TLS 1.3 with which splicing is enabled. -/
def Listed (cipher : UInt16) : Prop :=
  ∃ name, tls13CipherSuiteDic cipher = some name ∧ name ≠ ascii "TLS_AES_128_CCM_8_SHA256"

theorem listed_of_any {cipher : UInt16}
    (hany : (tls13CipherSuiteDic cipher).any (· ≠ ascii "TLS_AES_128_CCM_8_SHA256") = true) : Listed cipher := by
  cases hname : tls13CipherSuiteDic cipher with
  | none =>
      rw [hname] at hany
      cases hany
  | some name =>
      rw [hname] at hany
      exact ⟨name, hname, of_decide_eq_true hany⟩

theorem not_listed_zero : ¬ Listed 0 := fun ⟨_, hname, _⟩ => nomatch hname

/-- The cipher suite of the ServerHello at the start of a buffer. -/
def HasCipher (hello : Bytes) (cipher : UInt16) : Prop :=
  ∃ high low, hello[43 + (hello.getD 43 0).toNat + 1]? = some high ∧
    hello[43 + (hello.getD 43 0).toNat + 2]? = some low ∧ uint16 [high, low] = cipher

/-- Among the buffers a ServerHello begins with a listed cipher suite, and what was received of its record has the
marker of TLS 1.3. -/
def Justified (buffers : List Bytes) : Prop :=
  ∃ before hello later cipher, buffers = before ++ hello :: later ∧ startsServerHello hello = true ∧
    HasCipher hello cipher ∧ Listed cipher ∧
    tls13SupportedVersions <:+: (hello :: later).flatten.take (recordLength hello)

theorem Justified.append {buffers : List Bytes} (h : Justified buffers) (more : List Bytes) :
    Justified (buffers ++ more) := by
  obtain ⟨before, hello, later, cipher, rfl, hstart, hcipher, hlisted, hmarker⟩ := h
  refine ⟨before, hello, later ++ more, cipher, by simp, hstart, hcipher, hlisted, hmarker.trans ?_⟩
  rw [← List.cons_append, List.flatten_append]
  exact (List.IsPrefix.take (List.prefix_append _ _) _).isInfix

namespace TrafficState

/-- A record that began in one of the buffers, with this cipher suite, and this much of it to come. -/
structure Receives (buffers : List Bytes) (cipher : UInt16) (remaining : Int) (before : List Bytes) (hello : Bytes)
    (later : List Bytes) : Prop where
  buffers_eq : buffers = before ++ hello :: later
  starts : startsServerHello hello = true
  cipher : HasCipher hello cipher
  remaining : remaining + (hello :: later).flatten.length = recordLength hello

/-- While a record is being received, its cipher suite is the one in the state, or none is. -/
def Tracks (buffers : List Bytes) (s : TrafficState) : Prop :=
  0 < s.remainingServerHello → s.cipher = 0 ∨
    ∃ before hello later, Receives buffers s.cipher s.remainingServerHello before hello later

/-- A ServerHello too short to be read comes only when no cipher suite was read before. -/
def NoneStale (s : TrafficState) (b : Bytes) : Prop :=
  startsServerHello b = true → readsCipher b = false → s.cipher = 0

variable {s : TrafficState} {b : Bytes} {buffers : List Bytes}

/-- After a hello was looked for, the record being received ends with the buffer at hand. -/
theorem tracks_filterHello (h : Tracks buffers s) (hinside : ReadsInside b) (hstale : s.NoneStale b)
    (hpositive : 0 < (s.filterHello (fun _ => 0) b).remainingServerHello) :
    (s.filterHello (fun _ => 0) b).cipher = 0 ∨ ∃ before hello later earlier,
      hello :: later = earlier ++ [b] ∧
      Receives (buffers ++ [b]) (s.filterHello (fun _ => 0) b).cipher
        ((s.filterHello (fun _ => 0) b).remainingServerHello - b.length) before hello later := by
  cases hstart : startsServerHello b with
  | true =>
      rw [filterHello_server hstart] at hpositive ⊢
      dsimp only
      by_cases hreads : readsCipher b = true
      · have hend := hinside hreads
        unfold cipherEnd at hend
        refine Or.inr ⟨buffers, b, [], [], rfl, rfl, hstart, ?_, by simp⟩
        rw [if_pos hreads, List.getElem?_eq_getElem (show 43 + (b.getD 43 0).toNat + 1 < b.length by omega),
          List.getElem?_eq_getElem (show 43 + (b.getD 43 0).toNat + 2 < b.length by omega)]
        exact ⟨_, _, List.getElem?_eq_getElem _, List.getElem?_eq_getElem _, rfl⟩
      · rw [if_neg hreads]
        exact Or.inl (hstale hstart (Bool.eq_false_iff.mpr hreads))
  | false =>
      obtain ⟨hcipher, hremaining, -⟩ := filterHello_other s (fun _ => 0) hstart
      rw [hremaining] at hpositive
      rw [hcipher, hremaining]
      obtain hnone | ⟨before, hello, later, hreceives⟩ := h hpositive
      · exact Or.inl hnone
      · refine Or.inr ⟨before, hello, later ++ [b], hello :: later, rfl, ?_, hreceives.starts,
          hreceives.cipher, ?_⟩
        · rw [hreceives.buffers_eq, List.append_assoc, List.cons_append]
        · have hlength := hreceives.remaining
          rw [← List.cons_append, List.flatten_append, List.length_append, List.flatten_singleton]
          push_cast
          omega

/-- The marker in what the buffer holds of the record is one in the record. -/
theorem Receives.marker {before later earlier : List Bytes} {hello : Bytes} {cipher : UInt16} {remaining : Int}
    (h : Receives (buffers ++ [b]) cipher (remaining - b.length) before hello later)
    (hlast : hello :: later = earlier ++ [b]) (hpositive : 0 < remaining)
    (hmarker : tls13SupportedVersions <:+: b.take (min remaining (b.length : Int)).toNat) :
    tls13SupportedVersions <:+: (hello :: later).flatten.take (recordLength hello) := by
  have hlength := h.remaining
  rw [hlast, List.flatten_append, List.flatten_singleton, List.length_append] at hlength
  rw [hlast, List.flatten_append, List.flatten_singleton, List.take_append]
  refine (hmarker.trans ?_).trans (List.suffix_append _ _).isInfix
  refine (List.take_prefix_take_left ?_).isInfix
  omega

theorem tracks_filterBuffer (h : Tracks buffers s) (hinside : ReadsInside b) (hstale : s.NoneStale b) :
    Tracks (buffers ++ [b]) (s.filterBuffer (fun _ => 0) b).1 ∧
      ((s.filterBuffer (fun _ => 0) b).1.enableXtls = true →
        s.enableXtls = true ∨ Justified (buffers ++ [b])) := by
  have henable : ({ s with numberOfPacketToFilter := s.numberOfPacketToFilter - 1 }.filterHello
      (fun _ => 0) b).enableXtls = s.enableXtls := by
    cases hstart : startsServerHello b with
    | true => rw [filterHello_server hstart]
    | false => exact (filterHello_other _ _ hstart).2.2
  have htracks := tracks_filterHello (s := { s with numberOfPacketToFilter := s.numberOfPacketToFilter - 1 })
    h hinside hstale
  rw [filterBuffer]
  generalize { s with numberOfPacketToFilter := s.numberOfPacketToFilter - 1 }.filterHello
    (fun _ => 0) b = s' at henable htracks ⊢
  dsimp only
  split
  · next hpositive =>
      have hafter : 0 < s'.remainingServerHello - b.length → s'.cipher = 0 ∨ ∃ before hello later,
          Receives (buffers ++ [b]) s'.cipher (s'.remainingServerHello - b.length) before hello later := by
        intro _
        obtain hnone | ⟨before, hello, later, -, -, hreceives⟩ := htracks hpositive
        · exact Or.inl hnone
        · exact Or.inr ⟨before, hello, later, hreceives⟩
      split
      · next hmarker =>
          refine ⟨hafter, fun hset => ?_⟩
          dsimp only at hset
          rw [henable, Bool.or_eq_true] at hset
          obtain hold | hlisted := hset
          · exact Or.inl hold
          · have hcipher := listed_of_any hlisted
            obtain hnone | ⟨before, hello, later, earlier, hlast, hreceives⟩ := htracks hpositive
            · exact absurd hcipher (hnone ▸ not_listed_zero)
            · refine Or.inr ⟨before, hello, later, s'.cipher, hreceives.buffers_eq, hreceives.starts,
                hreceives.cipher, hcipher, ?_⟩
              exact hreceives.marker hlast hpositive (by simpa [contains] using hmarker)
      · split
        · exact ⟨hafter, fun hset => Or.inl (henable ▸ hset)⟩
        · exact ⟨hafter, fun hset => Or.inl (henable ▸ hset)⟩
  · next hpositive => exact ⟨fun h' => absurd h' hpositive, fun hset => Or.inl (henable ▸ hset)⟩

/-- The conditions of the buffers that are examined. -/
def Sound (s : TrafficState) (b : Bytes) : Prop := ReadsInside b ∧ s.NoneStale b

theorem tracks_filterContents {buffer : List Bytes} (h : Tracks buffers s) (hsound : Throughout Sound s buffer) :
    Tracks (buffers ++ s.examined buffer) (s.filterContents buffer) ∧
      ((s.filterContents buffer).enableXtls = true →
        s.enableXtls = true ∨ Justified (buffers ++ s.examined buffer)) := by
  induction buffer generalizing s buffers with
  | nil =>
      rw [examined, List.append_nil]
      exact ⟨h, Or.inl⟩
  | cons b buffer ih =>
      obtain ⟨⟨hinside, hstale⟩, hrest⟩ := hsound
      obtain ⟨htracks, henable⟩ := tracks_filterBuffer h hinside hstale
      rw [filterContents, xtlsFilterTls, examined]
      generalize s.filterBuffer (fun _ => 0) b = next at htracks henable hrest ⊢
      obtain ⟨next, continues⟩ := next
      cases continues with
      | false => exact ⟨htracks, henable⟩
      | true =>
          obtain ⟨htracks', henable'⟩ := ih htracks (hrest rfl)
          rw [List.append_assoc, List.singleton_append] at htracks' henable'
          refine ⟨htracks', fun hset => ?_⟩
          obtain hbefore | hnow := henable' hset
          · obtain hold | hjustified := henable hbefore
            · exact Or.inl hold
            · refine Or.inr ?_
              have hmore := hjustified.append (next.examined buffer)
              rwa [List.append_assoc, List.singleton_append] at hmore
          · exact Or.inr hnow

theorem justified_of_along {calls : List (List Bytes)} (h : Tracks buffers s)
    (hsound : Along filterContents (Throughout Sound) s calls)
    (hstart : s.enableXtls = true → Justified buffers)
    (hset : (Transition.run filterContents s calls).enableXtls = true) :
    Justified (buffers ++ s.history calls) := by
  induction calls generalizing s buffers with
  | nil =>
      rw [history, List.append_nil]
      exact hstart hset
  | cons buffer calls ih =>
      obtain ⟨htracks, henable⟩ := tracks_filterContents h hsound.1
      have hjustified : (s.filterContents buffer).enableXtls = true →
          Justified (buffers ++ s.examined buffer) := fun hset' =>
        (henable hset').elim (fun hold => (hstart hold).append _) id
      have hall := ih htracks hsound.2 hjustified hset
      rwa [List.append_assoc] at hall

/-- **The state is a function of the contents exactly when every cipher suite that is read lies inside the content
of its buffer.** If moreover no ServerHello that is too short to be read comes after one that was, splicing is
enabled only for a record with a listed cipher suite and the marker. -/
theorem determined_iff_inside (userUUID : Bytes) (calls : List (List Bytes)) :
    (({ userUUID } : TrafficState).Determined calls ↔
      Along filterContents Inside { userUUID } calls) ∧
    (Along filterContents (Throughout Sound) { userUUID } calls →
      (Transition.run filterContents { userUUID } calls).enableXtls = true →
        Justified (({ userUUID } : TrafficState).history calls)) := by
  refine ⟨determined_iff calls, fun hsound hset => ?_⟩
  have hidle : Tracks [] ({ userUUID } : TrafficState) := fun hpositive =>
    absurd hpositive (Int.not_lt.mpr (Int.neg_nonpos_of_nonneg Int.one_nonneg))
  exact justified_of_along hidle hsound (fun habsurd => nomatch habsurd) hset

/-- A ServerHello of 79 bytes that states a session id of 255. -/
def longSessionId : Bytes :=
  [0x16, 0x03, 0x03, 0x00, 0x64, 0x02] ++ List.replicate 37 0 ++ [255] ++ List.replicate 35 0

theorem not_determined_longSessionId : ¬ ({ userUUID := [] } : TrafficState).Determined [[longSessionId]] := by
  rw [determined_iff]
  intro hinside
  exact absurd (hinside.1.1 (by decide)) (by decide)

end TrafficState

end Enabled

end V2RootCore.Vision
