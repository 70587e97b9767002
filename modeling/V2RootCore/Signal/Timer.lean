import V2RootCore.Transition

/-!
# Activity timers

A timer that ends a connection without activity. `SetTimeout` starts a new check task under the lock `mu`,
and the task checks at once, in the same goroutine. A check task is started once; from then on it has a
timer that is armed or a goroutine that checks. The goroutines go on one statement at a time, where
statements that no other goroutine can tell apart are taken together.
-/

namespace V2RootCore.Signal

/-- From where `finish` was called: from the check of a task, inside `SetTimeout` or not, or from
`SetTimeout(0)`. -/
inductive Origin where
  | check (task : Nat) (inside : Bool)
  | zero
  deriving DecidableEq, Repr

/-- What a goroutine does next. -/
inductive Place where
  /-- The first look at `consumed` in `SetTimeout`. -/
  | calling (zero : Bool)
  | locking
  /-- The second look at `consumed`, with the lock. -/
  | locked
  /-- The task in use is closed and a new one takes its place. -/
  | replacing
  | updating (task : Nat)
  /-- `Start` of the new task, which no other goroutine starts or closes without the lock. -/
  | starting (task : Nat)
  /-- `hasClosed` in the goroutine of a timer that fired. -/
  | hasClosed (task : Nat)
  /-- The `select` of `check`. -/
  | selecting (task : Nat) (inside : Bool)
  /-- The end of `checkedExecute`. -/
  | rearming (task : Nat) (inside : Bool)
  | unlocking
  /-- `once.Do`. -/
  | entering (origin : Origin)
  /-- `consumed` is set. -/
  | consuming (origin : Origin)
  /-- `finish` takes the lock. -/
  | awaiting (origin : Origin)
  /-- The task in use is closed and `onTimeout` called. -/
  | firing (origin : Origin)
  | releasing (origin : Origin)
  | ended
  deriving DecidableEq, Repr

/-- `running` of a task, and whether its timer is armed. -/
structure CheckTask where
  running : Bool := false
  armed : Bool := false
  deriving DecidableEq, Repr

def CheckTask.close (_ : CheckTask) : CheckTask := {}

inductive Once where
  | idle
  | busy
  | done
  deriving DecidableEq, Repr

/-- The timer with its goroutines. The holder of the lock, the number of calls of `onTimeout` and whether
there was an `Update` since the last check are not written down in the program. -/
structure ActivityTimer where
  mu : Option Nat := none
  updated : Bool := false
  checkTask : Option Nat := none
  consumed : Bool := false
  once : Once := .idle
  tasks : List CheckTask := []
  goroutines : List Place := []
  timeouts : Nat := 0
  active : Bool := false
  deriving DecidableEq

namespace ActivityTimer

/-- A send to a channel that holds one update. -/
def update (t : ActivityTimer) : ActivityTimer := { t with updated := true, active := true }

/-- `CloseIfExists(t.checkTask)`. -/
def closeCheckTask (t : ActivityTimer) : ActivityTimer :=
  match t.checkTask with
  | none => t
  | some task => { t with tasks := t.tasks.modify task CheckTask.close }

def isRunning (t : ActivityTimer) (task : Nat) : Bool := t.tasks[task]?.any CheckTask.running

/-- Where a goroutine goes on after `finish`. -/
def afterFinish : Origin → Place
  | .check task inside => .rearming task inside
  | .zero => .ended

/-- What goroutine `i` does at its place, and where it goes. A goroutine that has to wait stays. -/
def act (t : ActivityTimer) (i : Nat) : Place → ActivityTimer × Place
  | .calling zero =>
      if t.consumed then (t, .ended)
      else if zero then (t, .entering .zero)
      else (t, .locking)
  | .locking => if t.mu = none then ({ t with mu := some i }, .locked) else (t, .locking)
  | .locked => if t.consumed then (t, .unlocking) else (t, .replacing)
  | .replacing =>
      let t := t.closeCheckTask
      ({ t with tasks := t.tasks ++ [{}], checkTask := some t.tasks.length }, .updating t.tasks.length)
  | .updating task => (t.update, .starting task)
  | .starting task =>
      ({ t with tasks := t.tasks.modify task fun c => { c with running := true } },
        .selecting task true)
  | .hasClosed task => if ¬t.isRunning task then (t, .ended) else (t, .selecting task false)
  | .selecting task inside =>
      ({ t with updated := false, active := false },
        if t.updated then .rearming task inside else .entering (.check task inside))
  | .rearming task inside =>
      (if ¬t.isRunning task then t
        else { t with tasks := t.tasks.modify task fun c => { c with armed := true } },
        if inside then .unlocking else .ended)
  | .unlocking => ({ t with mu := none }, .ended)
  | .entering origin =>
      match t.once with
      | .idle => ({ t with once := .busy }, .consuming origin)
      | .busy => (t, .entering origin)
      | .done => (t, afterFinish origin)
  | .consuming origin => ({ t with consumed := true }, .awaiting origin)
  | .awaiting origin => if t.mu = none then ({ t with mu := some i }, .firing origin) else (t, .awaiting origin)
  | .firing origin => ({ t.closeCheckTask with timeouts := t.timeouts + 1 }, .releasing origin)
  | .releasing origin => ({ t with mu := none, once := .done }, afterFinish origin)
  | .ended => (t, .ended)

end ActivityTimer

inductive Event where
  | update
  /-- `SetTimeout`, with a timeout that may be zero. -/
  | setTimeout (zero : Bool)
  /-- The timer of a task fires. -/
  | fire (task : Nat)
  /-- A goroutine goes on. -/
  | run (i : Nat)
  deriving DecidableEq

def ActivityTimer.step (t : ActivityTimer) : Event → ActivityTimer
  | .update => t.update
  | .setTimeout zero => { t with goroutines := t.goroutines ++ [.calling zero] }
  | .fire task =>
      if t.tasks[task]?.any CheckTask.armed then
        { t with
          tasks := t.tasks.modify task fun c => { c with armed := false }
          goroutines := t.goroutines ++ [.hasClosed task] }
      else t
  | .run i =>
      match t.goroutines[i]? with
      | none => t
      | some place =>
          { (t.act i place).1 with goroutines := t.goroutines.set i (t.act i place).2 }

end V2RootCore.Signal
