import V2RootCore.Proof.Buf.RawBuffer
import V2RootCore.Dns.Message

/-!
# Messages that fit in a buffer

A message that is appended to the array of a buffer is in the buffer as long as it is not longer than the
array. Otherwise `Resize` leaves the array.
-/

namespace V2RootCore.Dns

open Go Buf

/-- A buffer was made that holds the packed message. -/
def Packs (result : Except Error RawBuffer) (packed : Bytes) : Prop :=
  ∃ b, result = .ok b ∧ b.bytes = .ok packed

theorem length_v_of_resize {b b' : RawBuffer} {low high : Int} (hstop : 0 ≤ b.stop)
    (h : b.resize low high = .ok b') : b'.v.length = b.v.length := by
  rw [RawBuffer.resize] at h
  dsimp only at h
  generalize hlow : (if low < 0 then int32 (low + b.len) else low) = first at h
  generalize hhigh : (if high < 0 then int32 (high + b.len) else high) = last at h
  generalize hcut : ({ b with start := int32 (b.start + first), stop := int32 (b.start + last) } :
    RawBuffer).check = cut at h
  have hv : cut.v = b.v := by
    rw [← hcut, RawBuffer.check]
    split_ifs <;> rfl
  obtain ⟨-, h⟩ := ite_error_eq_ok.mp h
  split_ifs at h with hmore
  · obtain ⟨more, hslice, h⟩ := bind_eq_ok.mp h
    obtain rfl := Except.ok.inj h
    obtain ⟨hlow, hle, hhigh⟩ := slice_eq_ok hslice
    have hlength := (safe_slice hlow hle hhigh).2 _ hslice
    refine length_copyTo ?_
    rw [List.length_replicate]
    omega
  · rw [← Except.ok.inj h, hv]

theorem resize_packs_iff {b : RawBuffer} {msg : Appended} {array data : Bytes} (h : msg.Has array data)
    (harray : array.length = size) (hstart : b.start = 0) (hstop : b.stop = size) :
    Packs (({ b with v := msg.array } : RawBuffer).resize 0 (int32 msg.bytes.length)) data ↔
      data.length ≤ size := by
  have hlength := h.length.trans harray
  constructor
  · rintro ⟨b', hresize, hbytes⟩
    have hv : b'.v.length = msg.array.length := length_v_of_resize (by dsimp only; omega) hresize
    obtain ⟨hlow, hle, hhigh⟩ := slice_eq_ok hbytes
    have hdata := (safe_slice hlow hle hhigh).2 _ hbytes
    omega
  · intro hle
    have hsize : size = 8192 := rfl
    have hholds : ({ v := msg.array, start := 0, stop := data.length } : RawBuffer).Holds data := by
      refine ⟨rfl, rfl, hlength, ?_⟩
      dsimp only
      rw [h.in_place (harray ▸ hle), List.take_left]
    refine ⟨_, ?_, hholds.bytes⟩
    have hcut : int32 (data.length : Int) = data.length := int32_eq (by omega) (by omega)
    rw [RawBuffer.resize, h.bytes, hcut]
    dsimp only
    rw [if_neg (lt_irrefl _), if_neg (Int.not_lt.mpr (Int.natCast_nonneg _)),
      if_neg (Int.not_lt.mpr (Int.natCast_nonneg _)), hstart, zero_add, zero_add, hcut,
      int32_eq (by omega) (by omega), hholds.sound.check_eq, if_neg (by dsimp only; omega)]

section Must

variable {α β : Type}

theorem must_bind (x : Option α) (f : α → Option β) : must (x >>= f) = must x >>= fun a => must (f a) := by
  cases x <;> rfl

theorem must_foldlM (f : β → α → Option β) (l : List α) (b : β) :
    must (l.foldlM f b) = l.foldlM (fun b a => must (f b a)) b := by
  induction l generalizing b with
  | nil => rfl
  | cons a l ih =>
      rw [List.foldlM_cons, List.foldlM_cons, must_bind]
      exact congrArg (must (f b a) >>= ·) (funext ih)

end Must

variable {Message Name Builder : Type}

/-- The packed form of the response to a query, if it has one. -/
def IPAnswer.packed (answer : IPAnswer) (package : Package Message Name Builder) (id : UInt16)
    (domain : Bytes) : Option Bytes := do
  let name ← package.newName domain
  (package.pack (package.response { id, rcode := answer.rcode } { name, type := answer.type }
    (answer.ips.map (answer.resource name)))).toOption

theorem packAnswer_eq {builders : Builders Name Builder} {domain data : Bytes} {name : Name} {b : RawBuffer}
    (hname : builders.newName domain = some name) (hextend : RawBuffer.new.extend size = .ok (data, b))
    (id : UInt16) (answer : IPAnswer) :
    packAnswer builders id domain answer = (must (builders.build b.v { id, rcode := answer.rcode }
      { name, type := answer.type } (answer.ips.map (answer.resource name))) >>= fun builder =>
        resizeTo b (builders.finish builder)) := by
  simp only [packAnswer, Builders.build, hextend, hname, must_bind, must_foldlM, List.foldlM_map, bind_assoc]
  rfl

/-- The response is in the buffer exactly if it fits there. -/
theorem packAnswer_packs_iff {package : Package Message Name Builder} {id : UInt16} {domain : Bytes}
    {answer : IPAnswer} {packed : Bytes} (hpacked : answer.packed package id domain = some packed) :
    Packs (packAnswer package.toBuilders id domain answer) packed ↔ packed.length ≤ size := by
  obtain ⟨name, hname, hpack⟩ := Option.bind_eq_some_iff.mp hpacked
  obtain ⟨b, hextend, hb⟩ := holds_new.extend (n := size) (Nat.le_refl size)
  obtain ⟨builder, msg, hbuild, hfinish, hmsg⟩ :=
    package.build_ok b.v _ _ _ packed (toOption_eq_some.mp hpack)
  have hstop : b.stop = size := by rw [hb.stop, List.nil_append, List.length_replicate]
  rw [packAnswer_eq hname hextend, hbuild, must, ok_bind, hfinish]
  exact resize_packs_iff hmsg hb.length hb.start hstop

/-- The query is answered with the packed response, or there is nothing to answer. -/
def Answers (package : Package Message Name Builder) (lookupIP : Bytes → Bool → Bool → LookupResult)
    (id type : UInt16) (domain : Bytes) : Prop :=
  handleIPQuery package.toBuilders lookupIP id type domain = .ok none ∨
    ∃ answer packed b, lookupAnswer lookupIP type domain = some answer ∧
      answer.packed package id domain = some packed ∧
      handleIPQuery package.toBuilders lookupIP id type domain = .ok (some b) ∧ b.bytes = .ok packed

variable (package : Package Message Name Builder)

theorem answers_iff (lookupIP : Bytes → Bool → Bool → LookupResult) (id type : UInt16)
    (domain : Bytes) :
    Answers package lookupIP id type domain ↔ ∀ answer, lookupAnswer lookupIP type domain = some answer →
      ∃ packed, answer.packed package id domain = some packed ∧ packed.length ≤ size := by
  rw [Answers, handleIPQuery]
  cases hanswer : lookupAnswer lookupIP type domain with
  | none => exact iff_of_true (.inl rfl) fun answer h => by cases h
  | some answer =>
      dsimp only
      constructor
      · rintro (hnone | ⟨answer', packed, b, hsame, hpacked, hb, hbytes⟩) _ hthis
        · cases hresult : packAnswer package.toBuilders id domain answer <;> rw [hresult] at hnone <;> cases hnone
        · cases hsame
          cases hthis
          refine ⟨packed, hpacked, (packAnswer_packs_iff hpacked).mp ?_⟩
          cases hresult : packAnswer package.toBuilders id domain answer with
          | error err =>
              rw [hresult] at hb
              cases hb
          | ok b' =>
              rw [hresult] at hb
              cases hb
              exact ⟨b, rfl, hbytes⟩
      · intro h
        obtain ⟨packed, hpacked, hle⟩ := h answer rfl
        obtain ⟨b, hb, hbytes⟩ := (packAnswer_packs_iff hpacked).mpr hle
        exact .inr ⟨answer, packed, b, rfl, hpacked, by rw [hb]; rfl, hbytes⟩

/-- A message is packed, or its error is returned. -/
def PacksOrFails (package : Package Message Name Builder) (msg : Message) : Prop :=
  (∃ err, packMessage package msg = .error err ∧ err ≠ .panicked) ∨
    ∃ packed, package.pack msg = .ok packed ∧ Packs (packMessage package msg) packed

theorem resize_error {b : RawBuffer} {low high : Int} {err : Error} (h : b.resize low high = .error err) :
    err = .panicked := by
  rw [RawBuffer.resize] at h
  dsimp only at h
  rw [Go.slice] at h
  split_ifs at h <;> first | exact (Except.error.inj h).symm | cases h

theorem packsOrFails_iff (msg : Message) :
    PacksOrFails package msg ↔ ∀ packed, package.pack msg = .ok packed → packed.length ≤ size := by
  obtain ⟨b, hextend, hb⟩ := holds_new.extend (n := size) (Nat.le_refl size)
  have hstop : b.stop = size := by rw [hb.stop, List.nil_append, List.length_replicate]
  rw [PacksOrFails, packMessage, hextend, ok_bind]
  dsimp only
  match hpack : package.pack msg with
  | .error err =>
      rw [package.appendPack_error msg b.v err hpack]
      refine iff_of_true (.inl ⟨err, rfl, ?_⟩) nofun
      rintro rfl
      exact package.pack_ne msg hpack
  | .ok packed =>
      obtain ⟨s, happend, hs⟩ := package.appendPack_ok msg b.v packed hpack
      have hpacks := resize_packs_iff hs hb.length hb.start hstop
      rw [happend, ok_bind]
      constructor
      · rintro (⟨err, herr, hne⟩ | ⟨packed', hpacked', hpacked⟩) _ hall
        · exact absurd (resize_error herr) hne
        · cases hpacked'
          cases hall
          exact hpacks.mp hpacked
      · intro h
        exact .inr ⟨packed, rfl, hpacks.mpr (h packed rfl)⟩

theorem not_answers_of_many {n : Nat} (hn : 304 ≤ n) :
    ¬Answers package (fun _ _ _ => { ips := List.replicate n (List.replicate 16 1) }) 0 typeAAAA (ascii "a.") := by
  have hpos : n ≠ 0 := by omega
  have hanswer : lookupAnswer (fun _ _ _ => { ips := List.replicate n (List.replicate 16 1) }) typeAAAA
      (ascii "a.") = some { type := typeAAAA, ips := (List.replicate n (List.replicate 16 1)).map to16 } := by
    simp [lookupAnswer, hpos, typeA, typeAAAA]
  intro h
  obtain ⟨packed, hpacked, hle⟩ := (answers_iff _ _ _ _ _).mp h _ hanswer
  obtain ⟨name, -, hpack⟩ := Option.bind_eq_some_iff.mp hpacked
  have hlength := package.le_length _ _ _ packed (toOption_eq_some.mp hpack)
  dsimp only at hlength
  rw [List.map_replicate, List.map_replicate, List.map_replicate, List.sum_replicate] at hlength
  change n * 27 ≤ packed.length at hlength
  change packed.length ≤ 8192 at hle
  omega

section Plain

def appended (array data : Bytes) : Appended :=
  { array := if data.length ≤ array.length then data ++ array.drop data.length else array, bytes := data }

theorem has_appended (array data : Bytes) : (appended array data).Has array data := by
  rw [appended]
  split_ifs with hle
  · refine ⟨rfl, ?_, fun _ => rfl⟩
    rw [List.length_append, List.length_drop]
    omega
  · exact ⟨rfl, rfl, fun h => absurd h hle⟩

/-- Records with zeros for all but their data. -/
def plainRecords (answers : List (Resource Bytes)) : Bytes :=
  answers.flatMap fun answer => List.replicate 11 0 ++ answer.body

def plainBuilders : Builders Bytes (Bytes × List (Resource Bytes)) where
  newName := some
  newBuilder array _ := (array, [])
  startQuestions := some
  question builder _ := some builder
  startAnswers := some
  resource builder answer := some (builder.1, builder.2 ++ [answer])
  finish builder := some (appended builder.1 (plainRecords builder.2))

theorem foldlM_plainBuilders (array : Bytes) (before answers : List (Resource Bytes)) :
    answers.foldlM plainBuilders.resource (array, before) = some (array, before ++ answers) := by
  induction answers generalizing before with
  | nil => rw [List.append_nil]; rfl
  | cons answer answers ih => exact (ih (before ++ [answer])).trans (by rw [List.append_assoc]; rfl)

/-- A package whose messages have nothing but records. -/
def plainPackage : Package (List (Resource Bytes)) Bytes (Bytes × List (Resource Bytes)) where
  toBuilders := plainBuilders
  pack answers := .ok (plainRecords answers)
  appendPack answers array := .ok (appended array (plainRecords answers))
  response _ _ answers := answers
  pack_ne _ h := by cases h
  appendPack_error _ _ _ h := by cases h
  appendPack_ok answers array _ h := ⟨_, rfl, Except.ok.inj h ▸ has_appended array (plainRecords answers)⟩
  build_ok array _ _ answers _ h :=
    ⟨_, _, foldlM_plainBuilders array [] answers, rfl, Except.ok.inj h ▸ has_appended array (plainRecords answers)⟩
  le_length _ _ answers _ h := by
    rw [← Except.ok.inj h, plainRecords, List.length_flatMap]
    exact le_of_eq (congrArg List.sum (List.map_congr_left fun answer _ => by
      rw [List.length_append, List.length_replicate]))

end Plain

end V2RootCore.Dns
