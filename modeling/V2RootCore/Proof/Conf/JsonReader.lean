import V2RootCore.Conf.JsonReader

/-!
# Which comments are removed

A text is a row of pieces: bytes, strings, and comments of two kinds. All of them are copied or removed as
they should, wherever a `Read` stops, except block comments: a star is remembered over newlines, so that
a block comment also ends with a star, newlines and a slash.
-/

namespace V2RootCore.Conf

open Go

inductive Quote
  | double
  | single

def Quote.byte : Quote → UInt8
  | .double => 34
  | .single => 39

/-- What stands between two quotes: a byte, or one behind a backslash. -/
inductive Quoted (quote : Quote)
  | byte (x : UInt8) (hquote : x ≠ quote.byte) (hbackslash : x ≠ 92)
  | escaped (x : UInt8)

def Quoted.bytes {quote : Quote} : Quoted quote → Bytes
  | .byte x _ _ => [x]
  | .escaped x => [92, x]

/-- The beginning of a line comment. -/
def marker (slashes : Bool) : Bytes := if slashes then [47, 47] else [35]

inductive Piece
  | byte (x : UInt8) (hx : x ∉ ([34, 39, 92, 35, 47] : Bytes))
  | string (quote : Quote) (content : List (Quoted quote))
  | line (slashes : Bool) (body : Bytes) (hbody : 10 ∉ body)
  | block (body : Bytes) (hbody : ¬[42, 47] <:+: body)

/-- The newlines of a comment. -/
def newlines (body : Bytes) : Bytes := body.filter (· = 10)

namespace Piece

def bytes : Piece → Bytes
  | .byte x _ => [x]
  | .string quote content => quote.byte :: content.flatMap Quoted.bytes ++ [quote.byte]
  | .line slashes body _ => marker slashes ++ body ++ [10]
  | .block body _ => 47 :: 42 :: body ++ [42, 47]

/-- A piece without its comment. -/
def kept : Piece → Bytes
  | .byte x _ => [x]
  | .string quote content => quote.byte :: content.flatMap Quoted.bytes ++ [quote.byte]
  | .line _ _ _ => [10]
  | .block body _ => newlines body

end Piece

/-- A text, which may end in a line comment. -/
structure JsonText where
  pieces : List Piece
  last : Option (Bool × { body : Bytes // 10 ∉ body }) := none

namespace JsonText

def bytes (text : JsonText) : Bytes :=
  text.pieces.flatMap Piece.bytes ++
    match text.last with
    | some (slashes, body) => marker slashes ++ body
    | none => []

def kept (text : JsonText) : Bytes := text.pieces.flatMap Piece.kept

/-- All block comments have this property. -/
def Blocks (text : JsonText) (P : Bytes → Prop) : Prop :=
  ∀ body hbody, Piece.block body hbody ∈ text.pieces → P body

end JsonText

/-- The output for some bytes, and the state after them. -/
def State.run (state : State) : Bytes → Bytes × State
  | [] => ([], state)
  | x :: rest => ((state.next x).1 ++ (State.run (state.next x).2 rest).1, (State.run (state.next x).2 rest).2)

/-- The reader returns the text without its comments: never more bytes than there is room for, at any time
a beginning of it, all of it at the end, and the end after enough calls. -/
structure Filters (text : JsonText) : Prop where
  room : ∀ (r : JsonReader) n, 3 ≤ n → (r.read n).1.1.length ≤ n
  begins : ∀ sizes, (∀ n ∈ sizes, 3 ≤ n) →
    (JsonReader.readAll { rest := text.bytes } sizes).1 <+: text.kept
  all : ∀ sizes, (∀ n ∈ sizes, 3 ≤ n) → (JsonReader.readAll { rest := text.bytes } sizes).2 = true →
    (JsonReader.readAll { rest := text.bytes } sizes).1 = text.kept
  ends : ∀ sizes, (∀ n ∈ sizes, 3 ≤ n) → text.bytes.length < sizes.length →
    (JsonReader.readAll { rest := text.bytes } sizes).2 = true

section Reads

theorem length_next_le (state : State) (x : UInt8) : (state.next x).1.length ≤ 2 := by
  cases state <;> grind [State.next]

theorem length_readLoop_le {limit : Nat} (p : Bytes) (state : State) (rest : Bytes)
    (hp : p.length ≤ limit + 2) : (readLoop limit p state rest).1.1.length ≤ limit + 2 := by
  induction rest generalizing p state with
  | nil => exact hp
  | cons x rest ih =>
      rw [readLoop]
      split_ifs with hroom
      · refine ih _ _ ?_
        have := length_next_le state x
        rw [List.length_append]
        omega
      · exact hp

/-- **One `Read`** returns the beginning of the output, and a byte less is to come or it is the end. -/
theorem readLoop_spec (limit : Nat) (p : Bytes) (state : State) (rest : Bytes) :
    (readLoop limit p state rest).1.1 ++
        (State.run (readLoop limit p state rest).2.state (readLoop limit p state rest).2.rest).1 =
      p ++ (State.run state rest).1 ∧
    ((readLoop limit p state rest).1.2 = true → (readLoop limit p state rest).2.rest = []) ∧
    (p.length < limit → (readLoop limit p state rest).1.2 = true ∨
      (readLoop limit p state rest).2.rest.length < rest.length) := by
  induction rest generalizing p state with
  | nil =>
      refine ⟨rfl, fun _ => rfl, fun hroom => .inl ?_⟩
      exact decide_eq_true hroom
  | cons x rest ih =>
      rw [readLoop]
      split_ifs with hroom
      · obtain ⟨hout, hend, hless⟩ := ih (p ++ (state.next x).1) (state.next x).2
        refine ⟨hout.trans (List.append_assoc _ _ _), hend, fun _ => ?_⟩
        by_cases hmore : (p ++ (state.next x).1).length < limit
        · exact (hless hmore).imp_right Nat.lt_succ_of_lt
        · refine .inr ?_
          cases rest with
          | nil => exact Nat.zero_lt_succ _
          | cons y rest =>
              rw [readLoop, if_neg hmore]
              exact Nat.lt_succ_self _
      · exact ⟨rfl, nofun, fun hlt => absurd hlt hroom⟩

/-- A `Read` that does not return the end leaves less to come. -/
theorem read_spec (r : JsonReader) {n : Nat} (hn : 3 ≤ n) :
    (r.read n).1.1 ++ ((r.read n).2.state.run (r.read n).2.rest).1 = (r.state.run r.rest).1 ∧
      ((r.read n).1.2 ≠ none → (r.state.run r.rest).1 = []) ∧
      ((r.read n).1.2 = none → (r.read n).2.rest.length < r.rest.length) := by
  obtain ⟨hout, hend, hless⟩ := readLoop_spec (n - 2) [] r.state r.rest
  have hroom : ([] : Bytes).length < n - 2 := Nat.sub_pos_of_lt hn
  rw [JsonReader.read]
  generalize hloop : readLoop (n - 2) [] r.state r.rest = result at hout hend hless
  obtain ⟨⟨p, atEnd⟩, r'⟩ := result
  dsimp only at hout hend hless ⊢
  refine ⟨hout, fun herr => ?_, fun hnone => ?_⟩
  · have hboth : atEnd ∧ p = [] := by
      by_contra hnot
      exact herr (if_neg hnot)
    rw [hend hboth.1, hboth.2] at hout
    exact hout.symm
  · obtain hatEnd | hlt := hless hroom
    · rw [hend hatEnd]
      refine List.length_pos_iff.mpr fun hnil => ?_
      rw [hnil, readLoop] at hloop
      obtain ⟨rfl, -⟩ := Prod.mk.inj (Prod.mk.inj hloop).1
      rw [if_pos ⟨hatEnd, rfl⟩] at hnone
      cases hnone
    · exact hlt

theorem readAll_spec (r : JsonReader) (sizes : List Nat) (hsizes : ∀ n ∈ sizes, 3 ≤ n) :
    (r.readAll sizes).1 <+: (r.state.run r.rest).1 ∧
      ((r.readAll sizes).2 = true → (r.readAll sizes).1 = (r.state.run r.rest).1) ∧
      (r.rest.length < sizes.length → (r.readAll sizes).2 = true) := by
  induction sizes generalizing r with
  | nil => exact ⟨List.nil_prefix, nofun, fun hlt => absurd hlt (Nat.not_lt_zero _)⟩
  | cons n sizes ih =>
      obtain ⟨hn, hsizes⟩ := List.forall_mem_cons.mp hsizes
      obtain ⟨hout, hend, hless⟩ := read_spec r hn
      rw [JsonReader.readAll]
      generalize r.read n = result at hout hend hless
      obtain ⟨⟨p, _ | err⟩, r'⟩ := result
      · obtain ⟨hbegins, hall, hends⟩ := ih r' hsizes
        have hlt := hless rfl
        dsimp only at hout hlt ⊢
        refine ⟨?_, fun hatEnd => ?_, fun hcount => hends ?_⟩
        · rw [← hout]
          exact (List.prefix_append_right_inj p).mpr hbegins
        · rw [← hout, hall hatEnd]
        · rw [List.length_cons] at hcount
          omega
      · dsimp only
        rw [hend nofun]
        exact ⟨List.prefix_rfl, fun _ => rfl, fun _ => rfl⟩

/-- **Where a `Read` stops does not show.** -/
theorem filters_iff (text : JsonText) : Filters text ↔ (State.run .content text.bytes).1 = text.kept := by
  constructor
  · intro h
    have hsizes : ∀ n ∈ List.replicate (text.bytes.length + 1) 3, 3 ≤ n := fun n hn =>
      (List.eq_of_mem_replicate hn).ge
    have hend := h.ends _ hsizes (by rw [List.length_replicate]; exact Nat.lt_succ_self _)
    rw [← h.all _ hsizes hend]
    exact ((readAll_spec { rest := text.bytes } _ hsizes).2.1 hend).symm
  · intro h
    have hreads := readAll_spec { rest := text.bytes }
    rw [h] at hreads
    refine ⟨fun r n hn => ?_, fun sizes hsizes => (hreads sizes hsizes).1,
      fun sizes hsizes => (hreads sizes hsizes).2.1, fun sizes hsizes => (hreads sizes hsizes).2.2⟩
    refine (length_readLoop_le [] r.state r.rest (Nat.zero_le (n - 2 + 2))).trans ?_
    omega

end Reads

section Pieces

variable {state state' : State} {b out : Bytes}

theorem run_append (state : State) (b b' : Bytes) : state.run (b ++ b') =
    ((state.run b).1 ++ ((state.run b).2.run b').1, ((state.run b).2.run b').2) := by
  induction b generalizing state with
  | nil => rfl
  | cons x b ih =>
      rw [List.cons_append, State.run, ih, State.run, List.append_assoc]

/-- The state between two quotes. -/
def Quote.inside : Quote → State
  | .double => .doubleQuote
  | .single => .singleQuote

theorem next_quote (quote : Quote) : State.next .content quote.byte = ([quote.byte], quote.inside) ∧
    quote.inside.next quote.byte = ([quote.byte], .content) := by
  cases quote with
  | double => exact ⟨rfl, rfl⟩
  | single => exact ⟨rfl, rfl⟩

theorem run_quoted {quote : Quote} (item : Quoted quote) :
    quote.inside.run item.bytes = (item.bytes, quote.inside) := by
  cases item with
  | escaped x =>
      cases quote with
      | double => rfl
      | single => rfl
  | byte x hquote hbackslash =>
      have hnext : quote.inside.next x = ([x], quote.inside) := by
        cases quote with
        | double => exact (if_neg hquote).trans (if_neg hbackslash)
        | single => exact (if_neg hquote).trans (if_neg hbackslash)
      rw [Quoted.bytes, State.run, hnext]
      rfl

theorem run_comment {body : Bytes} (hbody : 10 ∉ body) : State.run .comment body = ([], .comment) := by
  induction body with
  | nil => rfl
  | cons x body ih =>
      obtain ⟨hx, hbody⟩ := List.ne_and_not_mem_of_not_mem_cons hbody
      have hnext : State.next .comment x = ([], .comment) := if_neg (Ne.symm hx)
      rw [State.run, hnext, ih hbody]
      rfl

theorem run_marker (slashes : Bool) : State.run .content (marker slashes) = ([], .comment) := by
  cases slashes with
  | true => rfl
  | false => rfl

/-- A row of parts that are each copied as they should. -/
theorem run_flatMap {α : Type} {bytes kept : α → Bytes} {parts : List α}
    (hparts : ∀ part ∈ parts, state.run (bytes part) = (kept part, state)) :
    state.run (parts.flatMap bytes) = (parts.flatMap kept, state) := by
  induction parts with
  | nil => rfl
  | cons part parts ih =>
      obtain ⟨hpart, hparts⟩ := List.forall_mem_cons.mp hparts
      rw [List.flatMap_cons, run_append, hpart, ih hparts, List.flatMap_cons]

theorem run_block (body : Bytes) (hbody : ¬[42, 47] <:+: body) :
    State.run .content (Piece.block body hbody).bytes = State.run .multilineComment (body ++ [42, 47]) := rfl

/-- A star, newlines and a slash. -/
def falseEnd (n : Nat) : Bytes := 42 :: List.replicate n 10 ++ [47]

def Clean (body : Bytes) : Prop := ∀ n, ¬falseEnd n <:+: body

theorem Clean.suffix {body rest : Bytes} (h : Clean body) (hrest : rest <:+ body) : Clean rest :=
  fun n hpart => h n (hpart.trans hrest.isInfix)

/-- A comment that is clean from its last star on, after which there were only newlines. -/
theorem run_clean (rest : Bytes) (n : Nat) :
    (Clean rest → State.run .multilineComment (rest ++ [42, 47]) = (newlines rest, .content)) ∧
      (Clean (42 :: List.replicate n 10 ++ rest) →
        State.run .multilineCommentStar (rest ++ [42, 47]) = (newlines rest, .content)) := by
  induction rest generalizing n with
  | nil => exact ⟨fun _ => rfl, fun _ => rfl⟩
  | cons x rest ih =>
      rw [List.cons_append, State.run, State.run]
      constructor
      · intro hclean
        have hrest := hclean.suffix (List.suffix_cons x rest)
        by_cases hstar : x = 42
        · subst hstar
          exact (ih 0).2 hclean
        by_cases hline : x = 10
        · subst hline
          exact congrArg (fun result => (10 :: result.1, result.2)) ((ih 0).1 hrest)
        · have hnext : State.next .multilineComment x = ([], .multilineComment) :=
            (if_neg hstar).trans (if_neg hline)
          rw [hnext, newlines, List.filter_cons_of_neg (by simpa using hline)]
          exact (ih 0).1 hrest
      · intro hclean
        have hafter := hclean.suffix (List.suffix_append _ (x :: rest))
        have hrest := hafter.suffix (List.suffix_cons x rest)
        have hslash : x ≠ 47 := by
          rintro rfl
          refine hclean n ⟨[], rest, ?_⟩
          rw [falseEnd, List.nil_append, List.append_assoc]
          rfl
        by_cases hstar : x = 42
        · subst hstar
          exact (ih 0).2 hafter
        by_cases hline : x = 10
        · subst hline
          rw [List.append_cons, List.cons_append, ← List.replicate_succ'] at hclean
          exact congrArg (fun result => (10 :: result.1, result.2)) ((ih (n + 1)).2 hclean)
        · have hnext : State.next .multilineCommentStar x = ([], .multilineComment) :=
            (if_neg hslash).trans ((if_neg hstar).trans (if_neg hline))
          rw [hnext, newlines, List.filter_cons_of_neg (by simpa using hline)]
          exact (ih 0).1 hrest

/-- **One piece**, with a block comment that is clean. -/
theorem run_piece {piece : Piece} (hpiece : ∀ body hbody, piece = .block body hbody → Clean body) :
    State.run .content piece.bytes = (piece.kept, .content) := by
  cases piece with
  | byte x hx =>
      have hnext : State.next .content x = ([x], .content) := by
        simp only [List.mem_cons, List.not_mem_nil, or_false, not_or] at hx
        simp only [State.next, hx, if_false]
      rw [Piece.bytes, State.run, hnext]
      rfl
  | string quote content =>
      obtain ⟨hopen, hclose⟩ := next_quote quote
      have hcontent : quote.inside.run (content.flatMap Quoted.bytes) = (content.flatMap Quoted.bytes, _) :=
        run_flatMap fun item _ => run_quoted item
      rw [Piece.bytes, List.cons_append, State.run, hopen, run_append, hcontent, State.run, hclose]
      rfl
  | line slashes body hbody =>
      rw [Piece.bytes, run_append, run_append, run_marker, run_comment hbody]
      rfl
  | block body hbody =>
      rw [run_block, (run_clean body 0).1 (hpiece body hbody rfl)]
      rfl

theorem run_text {text : JsonText} (h : text.Blocks Clean) :
    (State.run .content text.bytes).1 = text.kept := by
  have hpieces : State.run .content (text.pieces.flatMap Piece.bytes) = (text.kept, .content) :=
    run_flatMap fun piece hpiece => run_piece fun body hbody heq => h body hbody (heq ▸ hpiece)
  rw [JsonText.bytes, run_append, hpieces]
  cases text.last with
  | none => exact List.append_nil _
  | some last =>
      dsimp only
      rw [run_append, run_marker, run_comment last.2.2]
      exact List.append_nil _

end Pieces

/-- **Which comments are removed.** The filter returns a text without its comments, for all sizes of the slices
from three bytes on, if no block comment has a star, newlines and a slash in a row. -/
theorem filters_of_clean {text : JsonText} (hclean : text.Blocks Clean) : Filters text :=
  (filters_iff text).mpr (run_text hclean)

theorem filters_stars :
    let text : JsonText :=
      { pieces := [.string .double [.byte 47 (by decide) (by decide), .escaped 34], .line false [34] (by decide),
          .block [42, 10, 42, 32, 10, 47] (by decide), .byte 123 (by decide)]
        last := some (true, ⟨[42], by decide⟩) }
    text.Blocks Clean ∧ Filters text := by
  intro text
  have hclean : text.Blocks Clean := by
    intro body hbody hmem n hpart
    obtain rfl : body = [42, 10, 42, 32, 10, 47] := by simpa [text] using hmem
    have hn : n < 6 := by
      have hlength := hpart.length_le
      simp [falseEnd] at hlength
      omega
    exact absurd hpart ((by decide : ∀ n < 6, ¬falseEnd n <:+: [42, 10, 42, 32, 10, 47]) n hn)
  exact ⟨hclean, filters_of_clean hclean⟩

/-- `/* *`, a newline and `/ */`: the comment ends in the second line. -/
theorem not_filters_star_newline : ¬Filters { pieces := [.block [32, 42, 10, 47, 32] (by decide)] } := by
  rw [filters_iff]
  decide

end V2RootCore.Conf
