import V2RootCore.Go.Io
import V2RootCore.Mux.Allocation

/-!
# Picking a worker of a mux client

`IncrementalWorkerPicker`. Workers are told apart by the order in which they were created. Their states change at
any time between the calls, but a worker that is closed stays closed; what the factory does is up to the caller.
-/

namespace V2RootCore.Mux

open Go

/-- What a worker is asked for. Count and size are those of its session manager. -/
structure IncrementalWorkerPicker.ClientWorker where
  strategy : ClientStrategy
  closed : Bool := false
  count : Nat := 0
  size : Nat := 0

namespace IncrementalWorkerPicker.ClientWorker

def isClosing (m : ClientWorker) : Bool :=
  0 < m.strategy.maxConnection ∧ m.strategy.maxConnection.toNat ≤ m.count

def isFull (m : ClientWorker) : Bool :=
  m.isClosing || m.closed || decide (0 < m.strategy.maxConcurrency ∧ m.strategy.maxConcurrency.toNat ≤ m.size)

end IncrementalWorkerPicker.ClientWorker

structure IncrementalWorkerPicker where
  workers : List Nat := []
  /-- The workers that were created, with their states, and how many there are. -/
  worker : Nat → IncrementalWorkerPicker.ClientWorker := fun _ => ⟨⟨0, 0⟩, false, 0, 0⟩
  created : Nat := 0

namespace IncrementalWorkerPicker

def cleanup (p : IncrementalWorkerPicker) : IncrementalWorkerPicker :=
  { p with workers := p.workers.filter fun w => !(p.worker w).closed }

def cleanupFunc (p : IncrementalWorkerPicker) : Except Error IncrementalWorkerPicker :=
  if p.workers = [] then .error (.new (ascii "no worker")) else .ok p.cleanup

def findAvailable (p : IncrementalWorkerPicker) : Option Nat :=
  p.workers.findIdx? fun w => !(p.worker w).isFull

/-- The elements at two places are exchanged. -/
def swap (workers : List Nat) (i j : Nat) : List Nat :=
  match workers[i]?, workers[j]? with
  | some a, some b => (workers.set i b).set j a
  | _, _ => workers

/-- The worker, whether it is a new one, and the picker. -/
def pickInternal (p : IncrementalWorkerPicker) (create : Except Error ClientStrategy) :
    Except Error Nat × Bool × IncrementalWorkerPicker :=
  match p.findAvailable with
  | some idx =>
      let n := p.workers.length
      let workers := if 1 < n ∧ idx ≠ n - 1 then swap p.workers (n - 1) idx else p.workers
      match workers[idx]? with
      | some w => (.ok w, false, { p with workers })
      | none => (.error .panicked, false, { p with workers })
  | none =>
      let p := p.cleanup
      match create with
      | .error err => (.error err, false, p)
      | .ok strategy =>
          (.ok p.created, true,
            { workers := p.workers ++ [p.created]
              worker := Function.update p.worker p.created { strategy }
              created := p.created + 1 })

inductive Event where
  | pick (create : Except Error ClientStrategy)
  | cleanup
  | change (w : Nat) (closed : Bool) (count size : Nat)

def step (p : IncrementalWorkerPicker) : Event → IncrementalWorkerPicker
  | .pick create => (p.pickInternal create).2.2
  | .cleanup =>
      match p.cleanupFunc with
      | .ok p => p
      | .error _ => p
  | .change w closed count size =>
      { p with
        worker := Function.update p.worker w
          { p.worker w with closed := (p.worker w).closed || closed, count, size } }

end IncrementalWorkerPicker

end V2RootCore.Mux
