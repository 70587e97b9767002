import V2RootCore.Go.Strings
import V2RootCore.Transition

/-!
# Starting and stopping the server

`Start`, `Stop` and the goroutine that each successful `Start` leaves behind. All three change the
globals only while they hold `serverLock`, so each is one step. Whether the configuration loads and
whether `core.New`, `Close` and `srv.Start` succeed is left open.
-/

namespace V2RootCore.Library

open Go

/-- The values of `serverStatus`. -/
inductive Status where
  | stopped
  | starting
  | running
  | stopping
  deriving DecidableEq, Repr

def Status.text : Status → Bytes
  | stopped => ascii "STOPPED"
  | starting => ascii "STARTING"
  | running => ascii "RUNNING"
  | stopping => ascii "STOPPING"

/-- Instances are numbered in the order `core.New` returns them. -/
abbrev Instance := Nat

/-- The globals, and below them what is not written down anywhere: how many instances there have been,
which of them were closed, and the goroutines that have not returned. -/
structure State where
  server : Option Instance := none
  serverStatus : Status := .stopped
  done : Option Instance := none
  created : Nat := 0
  closed : List Instance := []
  goroutines : List Instance := []
  deriving DecidableEq, Repr

/-- `Start`, and what it returns: an error text, or nothing for success. Everything up to
`core.LoadConfig` is `load`, with the text of its error. -/
def start (load new : Except Bytes Unit) (st : State) : State × Option Bytes :=
  if st.server.isSome ∧ hasPrefix st.serverStatus.text (ascii "RUNNING") then
    (st, some (ascii "server already running"))
  else
    let st := { st with serverStatus := .starting }
    match load with
    | .error text => ({ st with serverStatus := .stopped }, some text)
    | .ok () =>
        match new with
        | .error text =>
            ({ st with serverStatus := .stopped },
              some (ascii "failed to create server: " ++ text))
        | .ok () =>
            let srv := st.created
            ({ st with
                server := some srv
                done := some srv
                serverStatus := .running
                created := st.created + 1
                goroutines := srv :: st.goroutines },
              none)

/-- `Stop`. An error of `Close` is only logged. -/
def stop (close : Except Bytes Unit) (st : State) : State × Option Bytes :=
  match st.server with
  | none => ({ st with serverStatus := .stopped }, some (ascii "server not running"))
  | some srv =>
      let st := { st with serverStatus := .stopping, closed := srv :: st.closed }
      let st :=
        match close with
        | .error _ => { st with server := none, serverStatus := .stopped }
        | .ok () => st
      ({ st with done := none, server := none, serverStatus := .stopped }, none)

/-- The goroutine of `srv` when `srv.Start` returns. On an error it resets the globals, whatever they
refer to by then. -/
def finish (srv : Instance) (result : Except Bytes Unit) (st : State) : State :=
  if srv ∈ st.goroutines then
    let st := { st with goroutines := st.goroutines.erase srv }
    match result with
    | .error _ => { st with server := none, serverStatus := .stopped }
    | .ok () => st
  else st

inductive Event where
  | start (load new : Except Bytes Unit)
  | stop (close : Except Bytes Unit)
  | finish (srv : Instance) (result : Except Bytes Unit)

def step (st : State) : Event → State
  | .start load new => (start load new st).1
  | .stop close => (stop close st).1
  | .finish srv result => finish srv result st

end V2RootCore.Library
