import Mathlib.Data.Vector.Basic

/-!
# Processes that talk over streams

A process reads a number of elements, writes some or stops. Alone it runs on a stream that holds all it
will read.
-/

namespace V2RootCore.Dialogue

inductive Process (β ε α : Type) where
  | stop (result : α)
  | read (size : Nat) (next : Except ε (List.Vector β size) → Process β ε α)
  | write (data : List β) (next : Option ε → Process β ε α)

/-- What is still to be read from the other side, what was written to it and how each write ends. -/
structure Conn (β ε : Type) where
  input : List β
  written : List (List β) := []
  outcome : Nat → Option ε := fun _ => none

variable {β ε α γ : Type}

namespace Process

def bind (f : α → Process β ε γ) : Process β ε α → Process β ε γ
  | .stop result => f result
  | .read size next => .read size fun data => (next data).bind f
  | .write data next => .write data fun outcome => (next outcome).bind f

/-- The run of a process alone. How a read ends is up to `take`; nothing is left behind a failed one. -/
def run (take : (n : Nat) → List β → Except ε (List.Vector β n × List β)) :
    Process β ε α → Conn β ε → α × Conn β ε
  | .stop result, conn => (result, conn)
  | .read size next, conn =>
      match take size conn.input with
      | .ok (data, rest) => (next (.ok data)).run take { conn with input := rest }
      | .error err => (next (.error err)).run take { conn with input := [] }
  | .write data next, conn =>
      (next (conn.outcome conn.written.length)).run take
        { conn with written := conn.written ++ [data] }

theorem run_bind (take : (n : Nat) → List β → Except ε (List.Vector β n × List β))
    (f : α → Process β ε γ) (process : Process β ε α) (conn : Conn β ε) :
    (process.bind f).run take conn =
      (f (process.run take conn).1).run take (process.run take conn).2 := by
  induction process generalizing conn with
  | stop result => rfl
  | read size next ih =>
      simp only [bind, run]
      split
      · exact ih _ _
      · exact ih _ _
  | write data next ih =>
      simp only [bind, run]
      exact ih _ _

end Process

end V2RootCore.Dialogue
