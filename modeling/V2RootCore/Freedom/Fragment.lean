import V2RootCore.Crypto.Rand

/-!
# Fragmentation of the freedom outbound

`FragmentWriter.Write` of `freedom.go` over a writer that accepts everything. What it does is what it returns and
the writes it makes below. The two loops of the source cut their bytes the same way, so that they are one loop
here. The loop has fuel, and the sum of a position and a length is taken without a wrap: no slice is as long.
-/

namespace V2RootCore.Freedom

open Go Crypto

structure Fragment where
  packetsFrom : UInt64
  packetsTo : UInt64
  lengthMin : UInt64
  lengthMax : UInt64
  intervalMin : UInt64
  intervalMax : UInt64
  maxSplitMin : UInt64 := 0
  maxSplitMax : UInt64 := 0
  deriving DecidableEq

/-- The random numbers of a write: one for the number of pieces, and two for each piece. -/
structure FragmentDraws where
  maxSplit : Nat
  length : Nat → Nat
  interval : Nat → Nat

namespace Fragment

/-- Only a hello is fragmented, to records. -/
def TlsHello (f : Fragment) : Prop := f.packetsFrom = 0 ∧ f.packetsTo = 1

instance (f : Fragment) : Decidable f.TlsHello := inferInstanceAs (Decidable (_ ∧ _))

/-- `RandBetween` of two bounds that are kept as a `uint64`. -/
def draw (min max : UInt64) (number : Nat) : Except Error Int :=
  randBetween min.toInt64.toInt max.toInt64.toInt number

/-- Where a piece ends, by the length that was drawn for it or because it is the last one. -/
def pieceEnd (data : Bytes) (maxSplit splitNum stop : Int) : Int :=
  if stop > data.length ∨ (maxSplit > 0 ∧ splitNum ≥ maxSplit) then data.length else stop

/-- The time to sleep after a piece, if the loop does. -/
def sleep (f : Fragment) (sleeps : Bool) (number : Nat) : Except Error Int :=
  if sleeps then draw f.intervalMin f.intervalMax number else .ok 0

/-- The pieces that a loop of `Write` cuts from `data`, from `start` on. -/
def pieces (f : Fragment) (drawn : FragmentDraws) (maxSplit : Int) (sleeps : Bool) (data : Bytes) :
    (fuel : Nat) → (start : Int) → (splitNum : Nat) → Except Error (List Bytes)
  | 0, _, _ => .error .panicked
  | fuel + 1, start, splitNum => do
      let length ← draw f.lengthMin f.lengthMax (drawn.length splitNum)
      let stop := pieceEnd data maxSplit (splitNum + 1) (start + length)
      let piece ← slice data start stop
      let _ ← f.sleep sleeps (drawn.interval splitNum)
      if stop = data.length then .ok [piece]
      else do
        let rest ← pieces f drawn maxSplit sleeps data fuel stop (splitNum + 1)
        .ok (piece :: rest)

end Fragment

/-- A record with the type and the version of the one that `b` starts with. -/
def record (b piece : Bytes) : Bytes := b.take 3 ++ putUint16 (UInt16.ofNat piece.length) ++ piece

/-- The length of the record that `b` starts with, with its header. -/
def recordLen (b : Bytes) : Nat := 5 + (uint16 (b.drop 3)).toNat

/-- The payload of that record. -/
def payload (b : Bytes) : Bytes := (b.take (recordLen b)).drop 5

/-- The writes of a hello that was cut to `pieces`. With no interval the records are sent at once. -/
def helloWrites (f : Fragment) (b : Bytes) (pieces : List Bytes) : List Bytes :=
  let records := pieces.map (record b)
  (if f.intervalMax = 0 then [records.flatten] else records) ++
    if recordLen b < b.length then [b.drop (recordLen b)] else []

structure FragmentWriter where
  fragment : Fragment
  count : UInt64 := 0

namespace FragmentWriter

def next (w : FragmentWriter) : FragmentWriter := { w with count := w.count + 1 }

/-- `Write`, with the writes below. -/
def write (w : FragmentWriter) (fuel : Nat) (b : Bytes) (drawn : FragmentDraws) :
    Except Error (Nat × List Bytes) :=
  if w.fragment.TlsHello then
    if w.next.count ≠ 1 ∨ b.length ≤ 5 ∨ b.head? ≠ some 22 then .ok (b.length, [b])
    else if b.length < recordLen b then .ok (b.length, [b])
    else do
      let maxSplit ← Fragment.draw w.fragment.maxSplitMin w.fragment.maxSplitMax drawn.maxSplit
      let pieces ← w.fragment.pieces drawn maxSplit (w.fragment.intervalMax ≠ 0) (payload b) fuel 0 0
      .ok (b.length, helloWrites w.fragment b pieces)
  else if w.fragment.packetsFrom ≠ 0 ∧
      (w.next.count < w.fragment.packetsFrom ∨ w.next.count > w.fragment.packetsTo) then .ok (b.length, [b])
  else do
    let maxSplit ← Fragment.draw w.fragment.maxSplitMin w.fragment.maxSplitMax drawn.maxSplit
    let pieces ← w.fragment.pieces drawn maxSplit true b fuel 0 0
    .ok (pieces.flatten.length, pieces)

end FragmentWriter

end V2RootCore.Freedom
