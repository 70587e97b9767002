import V2RootCore.Crypto.Rand

/-!
# Paddings of the VLESS handshake

`ParsePadding` and `CreatPadding` of `common.go`. The numbers are `int`s of 64 bits.
-/

namespace V2RootCore.Vless

open Go Crypto

/-- A field of a padding: its chance in percent and the two bounds. -/
structure PaddingField where
  chance : Int
  low : Int
  high : Int
  deriving DecidableEq

def PaddingField.ofString (s : Bytes) : Except Error PaddingField :=
  match s.splitOn 45 with
  | x₀ :: x₁ :: x₂ :: _ =>
      if x₀ = [] ∨ x₁ = [] ∨ x₂ = [] then
        .error (.new (ascii "invalid padding lenth/gap parameter: " ++ s))
      else
        match atoi x₀, atoi x₁, atoi x₂ with
        | .ok chance, .ok low, .ok high => .ok ⟨chance, low, high⟩
        | .error text, _, _ => .error (.new text)
        | .ok _, .error text, _ => .error (.new text)
        | .ok _, .ok _, .error text => .error (.new text)
  | _ => .error (.new (ascii "invalid padding lenth/gap parameter: " ++ s))

/-- The lengths and gaps read so far, and the sum of the larger bounds of the lengths. -/
structure Paddings where
  lens : List PaddingField := []
  gaps : List PaddingField := []
  maxLen : Int := 0
  deriving DecidableEq

/-- One round of the loop of `ParsePadding`. -/
def Paddings.add (p : Paddings) (i : Nat) (s : Bytes) : Except Error Paddings :=
  match PaddingField.ofString s with
  | .error err => .error err
  | .ok y =>
      if i = 0 ∧ (y.chance < 100 ∨ y.low < 18 + 17 ∨ y.high < 18 + 17) then
        .error (.new (ascii "first padding length must not be smaller than 35"))
      else if i % 2 = 0 then
        .ok { p with lens := p.lens ++ [y], maxLen := int64 (p.maxLen + max y.low y.high) }
      else .ok { p with gaps := p.gaps ++ [y] }

def Paddings.addAll : Nat → List Bytes → Paddings → Except Error Paddings
  | _, [], p => .ok p
  | i, s :: fields, p => do addAll (i + 1) fields (← p.add i s)

/-- `ParsePadding`, of new lists. -/
def parsePadding (padding : Bytes) : Except Error Paddings :=
  if padding = [] then .ok {}
  else do
    let p ← Paddings.addAll 0 (padding.splitOn 46) {}
    if p.maxLen > 18 + 65535 then
      .error (.new (ascii "total padding length must not be larger than 65553"))
    else .ok p

/-- The numbers drawn for a field. -/
structure PaddingDraw where
  chance : Nat
  length : Nat

def PaddingField.draw (y : PaddingField) (drawn : PaddingDraw) : Except Error Int := do
  if y.chance ≥ (← randBetween 0 100 drawn.chance) then randBetween y.low y.high drawn.length
  else .ok 0

def drawFields (drawn : Nat → PaddingDraw) : Nat → List PaddingField → Except Error (List Int)
  | _, [] => .ok []
  | i, y :: fields => do
      let l ← y.draw (drawn i)
      let lens ← drawFields drawn (i + 1) fields
      .ok (l :: lens)

def defaultLens : List PaddingField := [⟨100, 111, 1111⟩, ⟨50, 0, 3333⟩]

def defaultGaps : List PaddingField := [⟨75, 0, 111⟩]

/-- The lists that `CreatPadding` draws from. -/
def Paddings.orDefault (p : Paddings) : Paddings :=
  if p.lens = [] then { p with lens := defaultLens, gaps := defaultGaps } else p

structure CreatedPadding where
  length : Int
  lens : List Int
  gaps : List Int
  deriving DecidableEq

/-- `CreatPadding`, with the gaps in nanoseconds. -/
def creatPadding (p : Paddings) (drawnLens drawnGaps : Nat → PaddingDraw) : Except Error CreatedPadding := do
  let lens ← drawFields drawnLens 0 p.orDefault.lens
  let gaps ← drawFields drawnGaps 0 p.orDefault.gaps
  .ok {
    length := lens.foldl (fun length l => int64 (length + l)) 0
    lens
    gaps := gaps.map fun g => int64 (g * 1000000) }

end V2RootCore.Vless
