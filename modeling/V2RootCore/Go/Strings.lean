import Mathlib.Tactic

/-!
# Go strings

A Go string is a sequence of bytes. The functions of `strings` and `strconv` below are those a parser
of links and frames needs, on separators of one byte. Where the list library has the function
already, `strings.Split` and `strings.Join` among them, it is used under its own name:
`List.splitOn` and `List.intercalate`.
-/

namespace V2RootCore.Go

abbrev Bytes := List UInt8

/-- The bytes of an ASCII literal. -/
def ascii (s : String) : Bytes := s.toList.map fun c => c.toNat.toUInt8

/-- `strings.Cut`: what comes before and after the first `sep`. -/
def cut (sep : UInt8) (s : Bytes) : Bytes × Bytes :=
  (s.takeWhile (· ≠ sep), (s.dropWhile (· ≠ sep)).drop 1)

/-- What comes before and after the last `sep`, as `strings.LastIndex` finds it. -/
def cutLast (sep : UInt8) : Bytes → Option (Bytes × Bytes)
  | [] => none
  | c :: rest =>
      match cutLast sep rest with
      | some (before, after) => some (c :: before, after)
      | none => if c = sep then some ([], rest) else none

/-- `strings.SplitN(s, sep, 2)` when it yields two parts. -/
def splitTwo (sep : UInt8) (s : Bytes) : Option (Bytes × Bytes) :=
  if sep ∈ s then some (cut sep s) else none

/-- `strings.HasPrefix`, with the arguments as there. -/
def hasPrefix (s start : Bytes) : Bool := start.isPrefixOf s

/-- `strings.TrimPrefix`. -/
def trimPrefix (s start : Bytes) : Bytes := if hasPrefix s start then s.drop start.length else s

/-- `strings.Contains`. -/
def contains (s part : Bytes) : Bool := decide (part <:+: s)

/-- `strings.Index`. -/
def index (s part : Bytes) : Option Nat :=
  (List.range (s.length + 1)).find? fun start => hasPrefix (s.drop start) part

/-- `strings.ToLower`, as far as its result can be ASCII: besides the ASCII letters, U+0130 becomes an
`i` and U+212A a `k`. All other bytes above `0x7F` stand for letters that stay outside ASCII. -/
def toLower : Bytes → Bytes
  | [] => []
  | 0xC4 :: 0xB0 :: rest => 105 :: toLower rest
  | 0xE2 :: 0x84 :: 0xAA :: rest => 107 :: toLower rest
  | c :: rest => (if 65 ≤ c ∧ c ≤ 90 then c + 32 else c) :: toLower rest

def isDigit (c : UInt8) : Bool := 48 ≤ c && c ≤ 57

def isLetter (c : UInt8) : Bool := (97 ≤ c && c ≤ 122) || (65 ≤ c && c ≤ 90)

def isAlphanumeric (c : UInt8) : Bool := isLetter c || isDigit c

/-- The decimal digits of a number, as `%d` prints it. -/
def formatUint (n : Nat) : Bytes := (Nat.toDigits 10 n).map fun c => c.toNat.toUInt8

/-- `strconv.ParseUint(s, 10, bitSize)`, where the kind of error makes no difference. -/
def parseUint (s : Bytes) (bitSize : Nat) : Option Nat :=
  if s ≠ [] ∧ s.all isDigit then
    let n := s.foldl (fun n c => 10 * n + (c.toNat - 48)) 0
    if n < 2 ^ bitSize then some n else none
  else none

/-- What `Atoi` does behind the sign. -/
def magnitude (negative : Bool) (digits : Bytes) : Except Bytes Int :=
  if digits = [] ∨ ¬digits.all isDigit then .error (ascii "invalid syntax")
  else
    let n : Nat := digits.foldl (fun n c => 10 * n + (c.toNat - 48)) 0
    if negative then if n ≤ 2 ^ 63 then .ok (-n) else .error (ascii "value out of range")
    else if n < 2 ^ 63 then .ok n
    else .error (ascii "value out of range")

/-- `strconv.Atoi`, or why it fails. -/
def atoi (s : Bytes) : Except Bytes Int :=
  match s with
  | 45 :: digits => magnitude true digits
  | 43 :: digits => magnitude false digits
  | digits => magnitude false digits

end V2RootCore.Go
