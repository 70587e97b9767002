import V2RootCore.Go.Io
import V2RootCore.Go.Map
import V2RootCore.Transition

/-!
# The outbound manager

The handlers of the manager are pointers with a tag that does not change. Every call holds the lock of the
manager to its end, so each is one step. Whether a handler can be started or closed is left open, and so
is the order in which a map is walked.
-/

namespace V2RootCore.Proxyman

open Go

structure Handler where
  address : Nat
  tag : Bytes
  deriving DecidableEq, Repr

structure Manager where
  defaultHandler : Option Handler := none
  taggedHandler : Map Handler := []
  untaggedHandlers : List Handler := []
  running : Bool := false
  deriving DecidableEq

/-- The manager, the handlers that have been started and not closed since, and whether a call has reported
an error. -/
structure State where
  manager : Manager := {}
  started : List Handler := []
  reported : Bool := false
  deriving DecidableEq

def errNoClue : Error := .new (ascii "not enough information for making a decision")

/-- `delete(m, key)`. -/
def delete (m : Map Handler) (key : Bytes) : Map Handler := m.filter fun field => field.1 ≠ key

/-- `errors.Combine`, without the texts of the errors it combines. -/
def combine (errs : List Error) : Option Error :=
  if errs = [] then none else some (.new (ascii "multierr: "))

/-- A loop that starts handlers up to the first that fails. -/
def startAll (fails : Handler → Option Error) :
    List Handler → List Handler → List Handler × Option Error
  | [], started => (started, none)
  | handler :: rest, started =>
      match fails handler with
      | some err => (started, some err)
      | none => startAll fails rest (handler :: started)

namespace Manager

def tagged (m : Manager) : List Handler := m.taggedHandler.map Prod.snd

def handlers (m : Manager) : List Handler := m.tagged ++ m.untaggedHandlers

/-- The tagged handlers come in the order in which the map is walked. -/
def start (m : Manager) (order : List Handler) (fails : Handler → Option Error)
    (started : List Handler) : Manager × List Handler × Option Error :=
  ({ m with running := true }, startAll fails (order ++ m.untaggedHandlers) started)

def close (m : Manager) (fails : Handler → Option Error) (started : List Handler) :
    Manager × List Handler × Option Error :=
  ({ m with running := false }, started.filter (· ∉ m.handlers), combine (m.handlers.filterMap fails))

/-- The first handler becomes the default one. -/
def withDefault (m : Manager) (handler : Handler) : Manager :=
  if m.defaultHandler = none then { m with defaultHandler := some handler } else m

/-- The handler goes to the map or to the list. -/
def insert (m : Manager) (handler : Handler) : Manager :=
  if handler.tag ≠ [] then { m with taggedHandler := m.taggedHandler.set handler.tag handler }
  else { m with untaggedHandlers := m.untaggedHandlers ++ [handler] }

/-- `fails` is what `Start` of the handler returns, if it is called. -/
def addHandler (m : Manager) (handler : Handler) (fails : Option Error) (started : List Handler) :
    Manager × List Handler × Option Error :=
  let m := m.withDefault handler
  if handler.tag ≠ [] ∧ (m.taggedHandler.lookup handler.tag).isSome then
    (m, started, some (.new (ascii "existing tag found: " ++ handler.tag)))
  else
    let m := m.insert handler
    if m.running then
      match fails with
      | some err => (m, started, some err)
      | none => (m, handler :: started, none)
    else (m, started, none)

def removeHandler (m : Manager) (tag : Bytes) : Manager × Option Error :=
  if tag = [] then (m, some errNoClue)
  else
    let m := { m with taggedHandler := delete m.taggedHandler tag }
    if m.defaultHandler.any fun handler => handler.tag = tag then
      ({ m with defaultHandler := none }, none)
    else (m, none)

end Manager

inductive Call where
  | addHandler (handler : Handler) (fails : Option Error)
  | removeHandler (tag : Bytes)
  | start (order : List Handler) (fails : Handler → Option Error)
  | close (fails : Handler → Option Error)

/-- What a call makes of the manager and the handlers that run, and its error. A map is walked in some
order of its handlers. -/
def Call.result (m : Manager) (started : List Handler) : Call → Manager × List Handler × Option Error
  | .addHandler handler fails => m.addHandler handler fails started
  | .removeHandler tag => ((m.removeHandler tag).1, started, (m.removeHandler tag).2)
  | .start order fails => if order.Perm m.tagged then m.start order fails started else (m, started, none)
  | .close fails => m.close fails started

def Call.apply (st : State) (call : Call) : State :=
  let result := call.result st.manager st.started
  { manager := result.1, started := result.2.1, reported := st.reported || result.2.2.isSome }

end V2RootCore.Proxyman
