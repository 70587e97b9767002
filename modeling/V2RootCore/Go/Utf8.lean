import V2RootCore.Go.Strings

/-!
# UTF-8

`unicode/utf8.Valid`, and what `encoding/json` makes of a string that is not valid: every byte that
starts no rune is replaced by U+FFFD. The ranges are those of the package's table, so overlong forms,
surrogates and code points above U+10FFFF are not runes.
-/

namespace V2RootCore.Go.Utf8

def isContinuation (c : UInt8) : Bool := 0x80 ≤ c && c ≤ 0xBF

/-- A rune of two bytes. -/
def isTwo (c₀ c₁ : UInt8) : Bool := 0xC2 ≤ c₀ && c₀ ≤ 0xDF && isContinuation c₁

/-- A rune of three bytes. -/
def isThree (c₀ c₁ c₂ : UInt8) : Bool :=
  isContinuation c₁ && isContinuation c₂ &&
    ((c₀ == 0xE0 && 0xA0 ≤ c₁) || (0xE1 ≤ c₀ && c₀ ≤ 0xEC) || (c₀ == 0xED && c₁ ≤ 0x9F) ||
      (0xEE ≤ c₀ && c₀ ≤ 0xEF))

/-- A rune of four bytes. -/
def isFour (c₀ c₁ c₂ c₃ : UInt8) : Bool :=
  isContinuation c₁ && isContinuation c₂ && isContinuation c₃ &&
    ((c₀ == 0xF0 && 0x90 ≤ c₁) || (0xF1 ≤ c₀ && c₀ ≤ 0xF3) || (c₀ == 0xF4 && c₁ ≤ 0x8F))

/-- The number of bytes of the rune a string starts with, if it starts with one. -/
def runeLen : Bytes → Option Nat
  | [] => none
  | c₀ :: rest =>
      if c₀ < 0x80 then some 1
      else
        match rest with
        | [] => none
        | c₁ :: rest =>
            if isTwo c₀ c₁ then some 2
            else
              match rest with
              | [] => none
              | c₂ :: rest =>
                  if isThree c₀ c₁ c₂ then some 3
                  else
                    match rest with
                    | [] => none
                    | c₃ :: _ => if isFour c₀ c₁ c₂ c₃ then some 4 else none

/-- U+FFFD. -/
def replacement : Bytes := [0xEF, 0xBF, 0xBD]

/-- The pieces `encoding/json` goes through a string by: `skip` counts the bytes of the current rune
that are still to be copied. -/
def coerceFrom : Nat → Bytes → Bytes
  | _, [] => []
  | skip + 1, c :: rest => c :: coerceFrom skip rest
  | 0, c :: rest =>
      match runeLen (c :: rest) with
      | some len => c :: coerceFrom (len - 1) rest
      | none => replacement ++ coerceFrom 0 rest

/-- The string a JSON encoder writes, and a decoder reads back, for `s`. -/
def coerce (s : Bytes) : Bytes := coerceFrom 0 s

def validFrom : Nat → Bytes → Bool
  | _, [] => true
  | skip + 1, _ :: rest => validFrom skip rest
  | 0, c :: rest =>
      match runeLen (c :: rest) with
      | some len => validFrom (len - 1) rest
      | none => false

def valid (s : Bytes) : Bool := validFrom 0 s

end V2RootCore.Go.Utf8
