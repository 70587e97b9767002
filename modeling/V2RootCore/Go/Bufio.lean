import V2RootCore.Go.Io

/-!
# Buffered readers

A reader returns its bytes in pieces, of any length but not empty, and then an error. `bufio.Reader` on top
of it, as far as it is peeked into or read line by line.
-/

namespace V2RootCore.Go

def errBufferFull : Error := .new (ascii "bufio: buffer full")

/-- What a reader is going to return. Its error is none of `bufio`. -/
structure Source where
  pieces : List Bytes
  err : Error
  pieces_ne : ∀ piece ∈ pieces, piece ≠ []
  err_ne : err ≠ errBufferFull

def Source.bytes (source : Source) : Bytes := source.pieces.flatten

/-- A read into a slice of some length: the bytes and what is left. -/
def Source.read (source : Source) (room : Nat) : Bytes × Source :=
  match hpieces : source.pieces with
  | [] => ([], source)
  | piece :: pieces =>
      (piece.take room,
        { source with
          pieces := if room < piece.length then piece.drop room :: pieces else pieces
          pieces_ne := by
            have hne : ∀ piece ∈ pieces, piece ≠ [] := fun piece' hpiece' =>
              source.pieces_ne piece' (hpieces ▸ List.mem_cons_of_mem piece hpiece')
            split_ifs with hroom
            · refine List.forall_mem_cons.mpr ⟨?_, hne⟩
              rwa [Ne, List.drop_eq_nil_iff, not_le]
            · exact hne })

/-- `bufio.Reader`. -/
structure Bufio where
  size : Nat
  buffered : Bytes
  source : Source

namespace Bufio

/-- `bufio.NewReaderSize`. -/
def newReaderSize (source : Source) (size : Nat) : Bufio := { size, buffered := [], source }

/-- All that can still be read. -/
def stream (r : Bufio) : Bytes := r.buffered ++ r.source.bytes

def fill (r : Bufio) : Bufio :=
  let (bytes, source) := r.source.read (r.size - r.buffered.length)
  { r with buffered := r.buffered ++ bytes, source }

/-- The loop of `Peek`. -/
def fillTo (n : Nat) : Nat → Bufio → Bufio
  | 0, r => r
  | fuel + 1, r =>
      if r.buffered.length < n ∧ r.buffered.length < r.size ∧ r.source.pieces ≠ [] then
        fillTo n fuel r.fill
      else r

def peek (r : Bufio) (n : Nat) : (Bytes × Option Error) × Bufio :=
  let r := r.fillTo n n
  if r.size < n then ((r.buffered, some errBufferFull), r)
  else if r.buffered.length < n then ((r.buffered, some r.source.err), r)
  else ((r.buffered.take n, none), r)

/-- The loop of `ReadSlice`. -/
def readSliceLoop (delim : UInt8) : Nat → Bufio → Except Error Bytes × Bufio
  | 0, r => (.error .panicked, r)
  | fuel + 1, r =>
      if delim ∈ r.buffered then
        let line := r.buffered.takeWhile (· ≠ delim) ++ [delim]
        (.ok line, { r with buffered := r.buffered.drop line.length })
      else if r.source.pieces = [] then (.error r.source.err, { r with buffered := [] })
      else if r.size ≤ r.buffered.length then (.error errBufferFull, { r with buffered := [] })
      else readSliceLoop delim fuel r.fill

def readSlice (r : Bufio) (delim : UInt8) : Except Error Bytes × Bufio :=
  readSliceLoop delim (r.size + 1) r

end Bufio

end V2RootCore.Go
