import V2RootCore.Transition

/-!
# Periodic tasks

`Start` and every timer that fires run `checkedExecute` in a goroutine of their own. What is done under
the lock is one step, and so are the begin and the end of `Execute`, which takes as long as it likes and
may fail. A timer that is armed fires at some time; once it has fired, `Stop` comes too late.
-/

namespace V2RootCore.Task

/-- Who runs `checkedExecute`. -/
inductive Caller where
  | start
  | timer
  deriving DecidableEq, Repr

/-- Where a goroutine is. -/
inductive Place where
  /-- Before `hasClosed`. -/
  | checking
  /-- After `hasClosed`, which said no. -/
  | passed
  | executing
  /-- `Execute` returned, and the timer is next. -/
  | rearming
  /-- `Execute` returned an error, and `running` is to be reset. -/
  | failing
  /-- `Start` resets `running` once more. -/
  | resetting
  | ended
  deriving DecidableEq, Repr

structure Goroutine where
  caller : Caller
  place : Place
  deriving DecidableEq, Repr

inductive Timer where
  | armed
  | stopped
  | fired
  deriving DecidableEq, Repr

/-- `Stop` of a timer. -/
def Timer.stop : Timer → Timer
  | .armed => .stopped
  | timer => timer

/-- The task, all timers there have been, and whether `Close` was called after the last `Start`. -/
structure Periodic where
  running : Bool := false
  timer : Option Nat := none
  timers : List Timer := []
  goroutines : List Goroutine := []
  closed : Bool := false
  deriving DecidableEq

inductive Event where
  | start
  | close
  | hasClosed (i : Nat)
  | beginExecute (i : Nat)
  | endExecute (i : Nat) (failed : Bool)
  | afterFunc (i : Nat)
  | reset (i : Nat)
  | fire (timer : Nat)
  deriving DecidableEq

namespace Periodic

def move (t : Periodic) (i : Nat) (caller : Caller) (place : Place) : Periodic :=
  { t with goroutines := t.goroutines.set i ⟨caller, place⟩ }

def spawn (t : Periodic) (caller : Caller) : Periodic :=
  { t with goroutines := t.goroutines ++ [⟨caller, .checking⟩] }

/-- The first critical section of `Start`. -/
def start (t : Periodic) : Periodic :=
  if t.running then { t with closed := false }
  else { t with running := true, closed := false }.spawn .start

def close (t : Periodic) : Periodic :=
  let t := { t with running := false, closed := true }
  match t.timer with
  | none => t
  | some id => { t with timers := t.timers.modify id Timer.stop, timer := none }

/-- The last critical section of `checkedExecute`. -/
def afterFunc (t : Periodic) (i : Nat) (caller : Caller) : Periodic :=
  let t := t.move i caller .ended
  if ¬t.running then t
  else { t with timer := some t.timers.length, timers := t.timers ++ [.armed] }

def step (t : Periodic) : Event → Periodic
  | .start => t.start
  | .close => t.close
  | .hasClosed i =>
      match t.goroutines[i]? with
      | some ⟨caller, .checking⟩ => t.move i caller (if ¬t.running then .ended else .passed)
      | _ => t
  | .beginExecute i =>
      match t.goroutines[i]? with
      | some ⟨caller, .passed⟩ => t.move i caller .executing
      | _ => t
  | .endExecute i failed =>
      match t.goroutines[i]? with
      | some ⟨caller, .executing⟩ => t.move i caller (if failed then .failing else .rearming)
      | _ => t
  | .afterFunc i =>
      match t.goroutines[i]? with
      | some ⟨caller, .rearming⟩ => t.afterFunc i caller
      | _ => t
  | .reset i =>
      match t.goroutines[i]? with
      | some ⟨.start, .failing⟩ => { t with running := false }.move i .start .resetting
      | some ⟨.timer, .failing⟩ => { t with running := false }.move i .timer .ended
      | some ⟨caller, .resetting⟩ => { t with running := false }.move i caller .ended
      | _ => t
  | .fire id =>
      if t.timers[id]? = some .armed then { t with timers := t.timers.set id .fired }.spawn .timer
      else t

end Periodic

end V2RootCore.Task
