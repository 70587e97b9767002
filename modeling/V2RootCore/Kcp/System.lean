import Mathlib.Logic.Function.Basic
import V2RootCore.Kcp.Connection
import V2RootCore.Transition

/-!
# Two connections and the network between them

The system the delivery guarantees are about: the two ends of one conversation, and a network that
carries the segments they emit. `inbox side` holds every segment ever emitted towards `side`, latest
first, and an `input` step processes any one of them and leaves it there. Segments may thus be lost,
duplicated, delayed and reordered, but not invented.

Two parts of the state are history variables, written by the steps and read by no function of the
model: a payload carries its position in the order of pushes, and `pushed` and `delivered` record
what went into one end and came out of the other.
-/

namespace V2RootCore.Kcp

variable {α : Type}

inductive Side where
  | client
  | server
  deriving DecidableEq, Repr

def Side.peer : Side → Side
  | .client => .server
  | .server => .client

@[simp]
theorem Side.peer_ne (side : Side) : side.peer ≠ side := by
  cases side <;> decide

@[simp]
theorem Side.ne_peer (side : Side) : side ≠ side.peer := side.peer_ne.symm

@[simp]
theorem Side.peer_peer (side : Side) : side.peer.peer = side := by
  cases side <;> rfl

theorem Side.eq_or_eq_peer (side other : Side) : other = side ∨ other = side.peer := by
  cases side <;> cases other <;> decide

/-- A payload with its position in the order of pushes. -/
structure Tagged (α : Type) where
  index : Nat
  value : α
  deriving DecidableEq

/-- The payloads of `pushed`, each with its position. -/
def tagged (pushed : List α) : List (Tagged α) := pushed.mapIdx Tagged.mk

structure System (α : Type) where
  conn : Side → Connection (Tagged α)
  inbox : Side → List (Segment (Tagged α)) := fun _ => []
  pushed : Side → List α := fun _ => []
  delivered : Side → List (Tagged α) := fun _ => []

inductive Action (α : Type) where
  | push (side : Side) (b : α)
  | flushSending (side : Side) (current : UInt32)
  | flushReceiving (side : Side) (current : UInt32)
  | ping (side : Side)
  | input (side : Side) (current : UInt32) (position : Nat)
  | readMultiBuffer (side : Side)
  deriving DecidableEq

namespace System

def new (conversation : UInt16) (config : Side → Config) : System α :=
  { conn := fun side => Connection.new conversation (config side) }

def setConn (st : System α) (side : Side) (c : Connection (Tagged α)) : System α :=
  { st with conn := Function.update st.conn side c }

/-- Put segments emitted by `side` on the network. -/
def emit (st : System α) (side : Side) (segs : List (Segment (Tagged α))) : System α :=
  { st with inbox := Function.update st.inbox side.peer (segs ++ st.inbox side.peer) }

def push (st : System α) (side : Side) (b : α) : System α :=
  let c := st.conn side
  match c.sendingWorker.push { index := (st.pushed side).length, value := b } with
  | (_, false) => st
  | (sendingWorker, true) =>
      { st.setConn side { c with sendingWorker } with
        pushed := Function.update st.pushed side (st.pushed side ++ [b]) }

def readMultiBuffer (st : System α) (side : Side) : System α :=
  let c := st.conn side
  let (receivingWorker, mb) := c.receivingWorker.readMultiBuffer
  { st.setConn side { c with receivingWorker } with
    delivered := Function.update st.delivered side (st.delivered side ++ mb) }

def step (st : System α) : Action α → System α
  | .push side b => st.push side b
  | .flushSending side current =>
      let (c, segs) := (st.conn side).flushSending current
      (st.setConn side c).emit side segs
  | .flushReceiving side current =>
      let (c, segs) := (st.conn side).flushReceiving current
      (st.setConn side c).emit side segs
  | .ping side => st.emit side [.cmdOnly ((st.conn side).ping CommandPing)]
  | .input side current position =>
      match (st.inbox side)[position]? with
      | none => st
      | some seg => st.setConn side ((st.conn side).input current seg)
  | .readMultiBuffer side => st.readMultiBuffer side

def run (st : System α) (actions : List (Action α)) : System α := Transition.run step st actions

@[simp]
theorem run_cons (st : System α) (action : Action α) (actions : List (Action α)) :
    st.run (action :: actions) = (st.step action).run actions := rfl

end System

end V2RootCore.Kcp
