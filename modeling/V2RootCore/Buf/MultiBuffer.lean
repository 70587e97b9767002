import V2RootCore.Go.Io

/-!
# Buffers and multi-buffers

A buffer is its content and the UDP address that may come with it. The address is a pointer in the
source; the type `ρ` of pointers is left open, since it matters to some callers what it points to.
Allocation and release of buffers are left out.
-/

namespace V2RootCore.Buf

open Go

/-- The capacity of a buffer from the pool. -/
def size : Nat := 8192

structure Buffer (ρ : Type) where
  bytes : Bytes := []
  udp : Option ρ := none
  deriving DecidableEq

abbrev MultiBuffer (ρ : Type) := List (Buffer ρ)

variable {ρ : Type}

def Buffer.len (b : Buffer ρ) : Nat := b.bytes.length

namespace MultiBuffer

def bytes (mb : MultiBuffer ρ) : Bytes := mb.flatMap Buffer.bytes

def len (mb : MultiBuffer ρ) : Nat := mb.bytes.length

def isEmpty (mb : MultiBuffer ρ) : Bool := mb.all fun b => b.len = 0

/-- `SplitBytes`: what is left and what was copied into a slice of `n` bytes. -/
def splitBytes : MultiBuffer ρ → Nat → MultiBuffer ρ × Bytes
  | [], _ => ([], [])
  | b :: rest, n =>
      if b.len ≤ n then
        let (left, copied) := splitBytes rest (n - b.len)
        (left, b.bytes ++ copied)
      else ({ b with bytes := b.bytes.drop n } :: rest, b.bytes.take n)

/-- The loop of `SplitSize`: what is left and the buffers that fit whole. -/
def splitWhole (room : Nat) : MultiBuffer ρ → MultiBuffer ρ × MultiBuffer ρ
  | [] => ([], [])
  | b :: rest =>
      if room < b.len then (b :: rest, [])
      else
        let (left, taken) := splitWhole (room - b.len) rest
        (left, b :: taken)

/-- `SplitSize`: what is left and the beginning of at most `n` bytes. A part of a buffer is copied into
a new one, which panics if it has no room for it. -/
def splitSize (mb : MultiBuffer ρ) (n : Nat) : Except Error (MultiBuffer ρ × MultiBuffer ρ) :=
  match mb with
  | [] => .ok ([], [])
  | b :: rest =>
      if n < b.len then
        if size < n then .error .panicked
        else .ok ({ b with bytes := b.bytes.drop n } :: rest, [{ bytes := b.bytes.take n }])
      else .ok (splitWhole n mb)

end MultiBuffer

end V2RootCore.Buf
