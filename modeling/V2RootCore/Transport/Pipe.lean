import V2RootCore.Buf.MultiBuffer
import Mathlib.Logic.Function.Basic
import V2RootCore.Transition

/-!
# Pipes

A pipe with any number of writers, which are told apart by numbers, and one reader. Every section under
the lock is one step. A writer that finds the pipe full waits for a signal or the end of the pipe, and so
does a reader that finds it empty; both then start over. Each notifier keeps one signal. What is written
belongs to the pipe from then on.
-/

namespace V2RootCore.Transport

open Go Buf

variable {ρ : Type}

/-- `Len` of a multi-buffer, which is added up in 32 bits. -/
def len32 (mb : MultiBuffer ρ) : Int := Int.bmod mb.len (2 ^ 32)

inductive PipeState where
  | opened
  | closed
  | errord
  deriving DecidableEq

structure PipeOption where
  limit : Int := -1
  discardOverflow : Bool := false

def PipeOption.isFull (o : PipeOption) (curSize : Int) : Bool := 0 ≤ o.limit ∧ o.limit < curSize

structure Pipe (ρ : Type) where
  option : PipeOption
  /-- No data is nil. -/
  data : Option (MultiBuffer ρ) := none
  readSignal : Bool := false
  writeSignal : Bool := false
  done : Bool := false
  errChan : Option Error := none
  state : PipeState := .opened

def errBufferFull : Error := .new (ascii "buffer full")

def errSlowDown : Error := .new (ascii "slow down")

def errReadTimeout : Error := .new (ascii "IO timeout")

namespace Pipe

def content (p : Pipe ρ) : MultiBuffer ρ := p.data.getD []

def getState (p : Pipe ρ) (forRead : Bool) : Option Error :=
  match p.state with
  | .opened => if ¬forRead ∧ p.option.isFull (len32 p.content) then some errBufferFull else none
  | .closed =>
      if ¬forRead then some .closedPipe
      else if ¬p.content.isEmpty then none
      else some .eof
  | .errord => some .closedPipe

def readMultiBufferInternal (p : Pipe ρ) : Except Error (Option (MultiBuffer ρ)) × Pipe ρ :=
  match p.getState true with
  | some err => (.error err, p)
  | none => (.ok p.data, { p with data := none })

def writeMultiBufferInternal (p : Pipe ρ) (mb : MultiBuffer ρ) : Option Error × Pipe ρ :=
  match p.getState false with
  | some err => (some err, p)
  | none =>
      match p.data with
      | none => (none, { p with data := some mb })
      | some data => (some errSlowDown, { p with data := some (data ++ mb) })

def close (p : Pipe ρ) : Pipe ρ :=
  if p.state = .closed ∨ p.state = .errord then p
  else { p with state := .closed, done := true }

def interrupt (p : Pipe ρ) : Pipe ρ :=
  let p :=
    if p.content.isEmpty then p
    else { p with data := none, state := if p.state = .closed then .errord else p.state }
  if p.state = .closed ∨ p.state = .errord then p
  else { p with state := .errord, done := true }

end Pipe

/-- The pipe, the writers and the reader that wait, the writes that were stored so far and what the reads
have returned. -/
structure System (ρ : Type) where
  pipe : Pipe ρ
  writing : Nat → Option (MultiBuffer ρ) := fun _ => none
  reading : Bool := false
  stored : List (MultiBuffer ρ) := []
  results : List (Except Error (MultiBuffer ρ)) := []

inductive Event (ρ : Type) where
  /-- `WriteMultiBuffer` of a writer that does not wait. -/
  | write (writer : Nat) (mb : MultiBuffer ρ)
  /-- A writer that waits receives a signal. -/
  | retry (writer : Nat)
  /-- A writer that waits sees that the pipe is done. -/
  | giveUp (writer : Nat)
  /-- `ReadMultiBuffer`, or with a timeout. -/
  | read
  /-- The reader that waits receives a signal. -/
  | signalled
  /-- The reader that waits sees that the pipe is done. -/
  | finished
  /-- The reader that waits receives an error. -/
  | failed
  /-- The timeout of the reader that waits. -/
  | timeout
  | close
  | interrupt
  | returnAnError (err : Error)
  | recover

namespace System

def start (option : PipeOption) : System ρ := { pipe := { option } }

/-- What was returned to the reader. -/
def returned (st : System ρ) : List (MultiBuffer ρ) := st.results.filterMap Except.toOption

/-- The number of bytes in the pipe. -/
def size (st : System ρ) : Nat := st.pipe.content.len

/-- A round of the loop of `WriteMultiBuffer`. -/
def attemptWrite (st : System ρ) (writer : Nat) (mb : MultiBuffer ρ) : System ρ :=
  let (err, pipe) := st.pipe.writeMultiBufferInternal mb
  let writing := Function.update st.writing writer none
  if err = none ∨ err = some errSlowDown then
    { st with pipe := { pipe with readSignal := true }, writing, stored := st.stored ++ [mb] }
  else if err = some errBufferFull ∧ pipe.option.discardOverflow then { st with pipe, writing }
  else if err ≠ some errBufferFull then { st with pipe := { pipe with readSignal := true }, writing }
  else { st with pipe, writing := Function.update st.writing writer (some mb) }

/-- A read returns. -/
def endRead (st : System ρ) (pipe : Pipe ρ) (result : Except Error (MultiBuffer ρ)) : System ρ :=
  { st with pipe, reading := false, results := st.results ++ [result] }

/-- A round of the loop of `ReadMultiBuffer`. -/
def attemptRead (st : System ρ) : System ρ :=
  match st.pipe.readMultiBufferInternal with
  | (.error err, pipe) => st.endRead { pipe with writeSignal := true } (.error err)
  | (.ok (some data), pipe) => st.endRead { pipe with writeSignal := true } (.ok data)
  | (.ok none, pipe) => { st with pipe, reading := true }

def write (st : System ρ) (writer : Nat) (mb : MultiBuffer ρ) : System ρ :=
  if st.writing writer ≠ none ∨ mb.isEmpty then st else st.attemptWrite writer mb

def retry (st : System ρ) (writer : Nat) : System ρ :=
  match st.writing writer with
  | some mb =>
      if st.pipe.writeSignal then
        { st with pipe := { st.pipe with writeSignal := false } }.attemptWrite writer mb
      else st
  | none => st

end System

/-- What an event does. One that cannot happen now leaves the system as it is. -/
def step (st : System ρ) : Event ρ → System ρ
  | .write writer mb => st.write writer mb
  | .retry writer => st.retry writer
  | .giveUp writer =>
      if st.pipe.done then { st with writing := Function.update st.writing writer none } else st
  | .read => if st.reading then st else st.attemptRead
  | .signalled =>
      if st.reading ∧ st.pipe.readSignal then
        { st with pipe := { st.pipe with readSignal := false } }.attemptRead
      else st
  | .finished => if st.reading ∧ st.pipe.done then st.attemptRead else st
  | .failed =>
      match st.pipe.errChan with
      | some err =>
          if st.reading then st.endRead { st.pipe with errChan := none } (.error err) else st
      | none => st
  | .timeout => if st.reading then st.endRead st.pipe (.error errReadTimeout) else st
  | .close => { st with pipe := st.pipe.close }
  | .interrupt => { st with pipe := st.pipe.interrupt }
  | .returnAnError err =>
      if st.pipe.errChan = none then { st with pipe := { st.pipe with errChan := some err } } else st
  | .recover => { st with pipe := { st.pipe with errChan := none } }

end V2RootCore.Transport
