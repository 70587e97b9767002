import V2RootCore.Go.Strings

/-!
# Base64

`encoding/base64` with its two alphabets, with and without padding. Decoding is not strict about the
unused bits of the last quantum, and skips line breaks, as the package does by default.
-/

namespace V2RootCore.Go.Base64

inductive Alphabet where
  | std
  | url
  deriving DecidableEq, Repr

structure Encoding where
  alphabet : Alphabet
  padded : Bool
  deriving DecidableEq, Repr

def stdEncoding : Encoding := ⟨.std, true⟩
def urlEncoding : Encoding := ⟨.url, true⟩
def rawURLEncoding : Encoding := ⟨.url, false⟩

def padChar : UInt8 := 61

/-- The character of a six-bit digit. -/
def Alphabet.char (alphabet : Alphabet) (digit : UInt8) : UInt8 :=
  if digit < 26 then digit + 65
  else if digit < 52 then digit + 71
  else if digit < 62 then digit - 4
  else
    match alphabet with
    | .std => if digit = 62 then 43 else 47
    | .url => if digit = 62 then 45 else 95

/-- The digit of a character. -/
def Alphabet.digit (alphabet : Alphabet) (c : UInt8) : Option UInt8 :=
  if 65 ≤ c ∧ c ≤ 90 then some (c - 65)
  else if 97 ≤ c ∧ c ≤ 122 then some (c - 71)
  else if 48 ≤ c ∧ c ≤ 57 then some (c + 4)
  else
    match alphabet with
    | .std => if c = 43 then some 62 else if c = 47 then some 63 else none
    | .url => if c = 45 then some 62 else if c = 95 then some 63 else none

namespace Encoding

variable (enc : Encoding)

def pad (n : Nat) : Bytes := if enc.padded then List.replicate n padChar else []

/-- `EncodeToString`. -/
def encode : Bytes → Bytes
  | [] => []
  | [a] => [enc.alphabet.char (a >>> 2), enc.alphabet.char ((a &&& 3) <<< 4)] ++ enc.pad 2
  | [a, b] =>
      [enc.alphabet.char (a >>> 2), enc.alphabet.char ((a &&& 3) <<< 4 ||| b >>> 4),
        enc.alphabet.char ((b &&& 15) <<< 2)] ++ enc.pad 1
  | a :: b :: c :: rest =>
      [enc.alphabet.char (a >>> 2), enc.alphabet.char ((a &&& 3) <<< 4 ||| b >>> 4),
        enc.alphabet.char ((b &&& 15) <<< 2 ||| c >>> 6), enc.alphabet.char (c &&& 63)]
        ++ encode rest

/-- The three bytes of four digits. -/
def quantum (w x y z : UInt8) : Bytes := [w <<< 2 ||| x >>> 4, x <<< 4 ||| y >>> 2, y <<< 6 ||| z]

/-- Decode a text without line breaks, quantum by quantum. -/
def decodeQuanta : Bytes → Option Bytes
  | [] => some []
  | [_] => none
  | [a, b] =>
      if enc.padded then none
      else do
        let w ← enc.alphabet.digit a
        let x ← enc.alphabet.digit b
        some ((quantum w x 0 0).take 1)
  | [a, b, c] =>
      if enc.padded then none
      else do
        let w ← enc.alphabet.digit a
        let x ← enc.alphabet.digit b
        let y ← enc.alphabet.digit c
        some ((quantum w x y 0).take 2)
  | a :: b :: c :: d :: rest => do
      let w ← enc.alphabet.digit a
      let x ← enc.alphabet.digit b
      match enc.alphabet.digit c with
      | none =>
          -- the second pad character has to follow, and then nothing
          if enc.padded ∧ c = padChar ∧ d = padChar ∧ rest = [] then
            some ((quantum w x 0 0).take 1)
          else none
      | some y =>
          match enc.alphabet.digit d with
          | none =>
              if enc.padded ∧ d = padChar ∧ rest = [] then some ((quantum w x y 0).take 2)
              else none
          | some z => do
              let decoded ← decodeQuanta rest
              some (quantum w x y z ++ decoded)

/-- `DecodeString`. -/
def decode (s : Bytes) : Option Bytes := enc.decodeQuanta (s.filter fun c => c ≠ 10 ∧ c ≠ 13)

end Encoding

end V2RootCore.Go.Base64
