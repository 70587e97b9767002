import Mathlib.Tactic
import Mathlib.Logic.Function.Basic
import V2RootCore.Transition

/-!
# The sessions of a mux client

`SessionManager.Allocate` numbers the sessions of a connection with a counter of 16 bits. The sessions
it has ever returned are kept in order, so that a session can be closed after it has left the manager.
-/

namespace V2RootCore.Mux

structure Session where
  id : UInt16
  output : Nat
  deriving DecidableEq

/-- The sessions by their IDs. -/
structure SessionManager where
  sessions : UInt16 → Option Session := fun _ => none
  count : UInt16 := 0
  closed : Bool := false

/-- `ClientStrategy`. -/
structure ClientStrategy where
  maxConcurrency : UInt32 := 0
  maxConnection : UInt32 := 0

namespace SessionManager

/-- `Remove`. -/
def remove (m : SessionManager) (id : UInt16) : SessionManager :=
  if m.closed then m else { m with sessions := Function.update m.sessions id none }

/-- `Size`. -/
def size (m : SessionManager) : Nat :=
  (List.range (2 ^ 16)).countP fun id => (m.sessions (UInt16.ofNat id)).isSome

/-- The limits of `Allocate`; the one on connections is first cut to 16 bits. -/
def full (m : SessionManager) (strategy : ClientStrategy) : Bool :=
  let maxConcurrency := strategy.maxConcurrency.toNat
  let maxConnection := strategy.maxConnection.toUInt16
  m.closed || (decide (0 < maxConcurrency) && decide (maxConcurrency ≤ m.size)) ||
    (decide (0 < maxConnection) && decide (maxConnection ≤ m.count))

/-- `Allocate`. The output is set by the caller. -/
def allocate (m : SessionManager) (strategy : ClientStrategy) (output : Nat) :
    Option (Session × SessionManager) :=
  if m.full strategy then none
  else
    let count := m.count + 1
    let s : Session := { id := count, output }
    some (s, { m with count, sessions := Function.update m.sessions s.id (some s) })

/-- `CloseIfNoSessionAndIdle`. -/
def closeIfNoSessionAndIdle (m : SessionManager) (checkSize checkCount : Nat) : SessionManager :=
  if m.closed then m
  else if m.size ≠ 0 ∨ checkSize ≠ 0 ∨ checkCount ≠ m.count.toNat then m
  else { m with closed := true, sessions := fun _ => none }

end SessionManager

/-- A session that was allocated, and whether it was closed since. -/
structure Allocated where
  session : Session
  closed : Bool := false

structure Allocation where
  manager : SessionManager := {}
  allocated : List Allocated := []

namespace Allocation

/-- `Session.Close` of the session of this number. -/
def closeSession (st : Allocation) (number : Nat) : Allocation :=
  match st.allocated[number]? with
  | none => st
  | some s =>
      if s.closed then st
      else
        { manager := st.manager.remove s.session.id
          allocated := st.allocated.set number { s with closed := true } }

/-- `SessionManager.Close`, which also closes the sessions that are in the manager. -/
def close (st : Allocation) : Allocation :=
  if st.manager.closed then st
  else
    { manager := { st.manager with closed := true, sessions := fun _ => none }
      allocated := st.allocated.map fun s =>
        { s with closed := s.closed || st.manager.sessions s.session.id = some s.session } }

inductive Event where
  | allocate
  | closeSession (number : Nat)
  | remove (id : UInt16)
  | close
  | closeIfNoSessionAndIdle (checkSize checkCount : Nat)

/-- The sessions' outputs are numbered like the sessions. -/
def step (strategy : ClientStrategy) (st : Allocation) : Event → Allocation
  | .allocate =>
      match st.manager.allocate strategy st.allocated.length with
      | none => st
      | some (session, manager) => { manager, allocated := st.allocated ++ [{ session }] }
  | .closeSession number => st.closeSession number
  | .remove id => { st with manager := st.manager.remove id }
  | .close => st.close
  | .closeIfNoSessionAndIdle checkSize checkCount =>
      { st with manager := st.manager.closeIfNoSessionAndIdle checkSize checkCount }

def run (strategy : ClientStrategy) (events : List Event) : Allocation :=
  Transition.run (step strategy) {} events

end Allocation

end V2RootCore.Mux
