import V2RootCore.Go.Io

/-!
# The filter for comments

`json.Reader` copies a text without its comments. It is a state machine that goes from one `Read` to the
next one, and returns up to two bytes for a byte.
-/

namespace V2RootCore.Conf

open Go

inductive State
  | content
  | escape
  | doubleQuote
  | doubleQuoteEscape
  | singleQuote
  | singleQuoteEscape
  | comment
  | slash
  | multilineComment
  | multilineCommentStar
  deriving DecidableEq

/-- What a byte adds to the output, and the next state. -/
def State.next (state : State) (x : UInt8) : Bytes × State :=
  match state with
  | .content =>
      if x = 34 then ([x], .doubleQuote)
      else if x = 39 then ([x], .singleQuote)
      else if x = 92 then ([], .escape)
      else if x = 35 then ([], .comment)
      else if x = 47 then ([], .slash)
      else ([x], .content)
  | .escape => ([92, x], .content)
  | .doubleQuote =>
      if x = 34 then ([x], .content) else if x = 92 then ([], .doubleQuoteEscape) else ([x], .doubleQuote)
  | .doubleQuoteEscape => ([92, x], .doubleQuote)
  | .singleQuote =>
      if x = 39 then ([x], .content) else if x = 92 then ([], .singleQuoteEscape) else ([x], .singleQuote)
  | .singleQuoteEscape => ([92, x], .singleQuote)
  | .comment => if x = 10 then ([10], .content) else ([], .comment)
  | .slash =>
      if x = 47 then ([], .comment)
      else if x = 42 then ([], .multilineComment)
      else ([47, x], .slash)
  | .multilineComment =>
      if x = 42 then ([], .multilineCommentStar)
      else if x = 10 then ([10], .multilineComment)
      else ([], .multilineComment)
  | .multilineCommentStar =>
      if x = 47 then ([], .content)
      else if x = 42 then ([], .multilineCommentStar)
      -- the star is still remembered after a newline
      else if x = 10 then ([10], .multilineCommentStar)
      else ([], .multilineComment)

/-- A reader and the bytes still to come, after which there is the end. -/
structure JsonReader where
  state : State := .content
  rest : Bytes

/-- The loop of `Read`, which goes on as long as two more bytes have room: what was returned, whether it came
to the end, and the reader. -/
def readLoop (limit : Nat) : Bytes → State → Bytes → (Bytes × Bool) × JsonReader
  | p, state, [] => ((p, p.length < limit), { state, rest := [] })
  | p, state, x :: rest =>
      if p.length < limit then readLoop limit (p ++ (state.next x).1) (state.next x).2 rest
      else ((p, false), { state, rest := x :: rest })

/-- `Read` into a slice of `n` bytes. The end is only returned without any bytes. -/
def JsonReader.read (r : JsonReader) (n : Nat) : (Bytes × Option Error) × JsonReader :=
  match readLoop (n - 2) [] r.state r.rest with
  | ((p, atEnd), r) => ((p, if atEnd ∧ p = [] then some .eof else none), r)

/-- The bytes that `Read` calls return, and whether one of them came to the end. -/
def JsonReader.readAll (r : JsonReader) : List Nat → Bytes × Bool
  | [] => ([], false)
  | n :: sizes =>
      match r.read n with
      | ((_, some _), _) => ([], true)
      | ((p, none), r) =>
          let (more, atEnd) := r.readAll sizes
          (p ++ more, atEnd)

end V2RootCore.Conf
