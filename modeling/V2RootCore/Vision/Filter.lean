import V2RootCore.Vision.Reader
import V2RootCore.Transition

/-!
# What filtering reads

`XtlsFilterTls` on buffers with the memory behind their content. The cipher suite is taken from the array of the
buffer, at a place its session id tells; an array that ends before is a panic.
-/

namespace V2RootCore.Vision

open Go

/-- A buffer by its content and what its array holds behind it. -/
structure Backed where
  content : Bytes
  behind : Bytes

def Backed.memory (b : Backed) (i : Nat) : UInt8 := b.behind.getD (i - b.content.length) 0

/-- The buffer begins with a record that looks like a ServerHello. -/
def startsServerHello (b : Bytes) : Bool :=
  6 ≤ b.length ∧ b.take 3 = tlsServerHandShakeStart ∧ b[5]? = some tlsHandshakeTypeServerHello

/-- The length of the record, with its head. -/
def recordLength (b : Bytes) : Nat := (uint16 (b.drop 3)).toNat + 5

/-- Enough of the record is there for its cipher suite to be looked at. -/
def readsCipher (b : Bytes) : Bool := startsServerHello b ∧ 79 ≤ b.length ∧ 79 ≤ recordLength b

/-- The end of the cipher suite in its buffer. -/
def cipherEnd (b : Bytes) : Nat := 43 + (b.getD 43 0).toNat + 3

namespace TrafficState

/-- `XtlsFilterTls`. -/
def filterBacked : TrafficState → List Backed → Except Error TrafficState
  | s, [] => .ok s
  | s, b :: buffer =>
      if readsCipher b.content ∧ b.content.length + b.behind.length < cipherEnd b.content then
        .error .panicked
      else
        match s.filterBuffer b.memory b.content with
        | (s, true) => filterBacked s buffer
        | (s, false) => .ok s

/-- One call after the other. -/
def filterCalls (s : TrafficState) (calls : List (List Backed)) : Except Error TrafficState :=
  calls.foldlM filterBacked s

/-- The filtering as a function of the contents. -/
def filterContents (s : TrafficState) (buffer : List Bytes) : TrafficState := s.xtlsFilterTls (fun _ => 0) buffer

/-- The buffers of a call up to the one the loop ends with. -/
def examined : TrafficState → List Bytes → List Bytes
  | _, [] => []
  | s, b :: buffer =>
      match s.filterBuffer (fun _ => 0) b with
      | (s, true) => b :: examined s buffer
      | (_, false) => [b]

/-- The buffers that were examined in these calls. -/
def history : TrafficState → List (List Bytes) → List Bytes
  | _, [] => []
  | s, buffer :: calls => s.examined buffer ++ history (s.filterContents buffer) calls

end TrafficState

end V2RootCore.Vision
