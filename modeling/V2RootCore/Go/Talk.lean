import V2RootCore.Dialogue
import V2RootCore.Go.Io

/-!
# Talking over a connection

Code that reads from a connection with `io.ReadFull`, writes to it and may fail.
-/

namespace V2RootCore.Go

open Dialogue

abbrev Conn := Dialogue.Conn UInt8 Error

def Talk (α : Type) : Type := Process UInt8 Error (Except Error α)

namespace Talk

variable {α β : Type}

def fail (err : Error) : Talk α := Process.stop (.error err)

/-- The rest of the code runs if there is no error. -/
def next (f : α → Talk β) : Except Error α → Talk β
  | .ok a => f a
  | .error err => fail err

instance : Monad Talk where
  pure a := Process.stop (.ok a)
  bind talk f := Process.bind (next f) talk

/-- What needs no connection. -/
def lift (result : Except Error α) : Talk α := Process.stop result

def read (n : Nat) : Talk (List.Vector UInt8 n) := Process.read n Process.stop

def write (data : Bytes) : Talk Unit :=
  Process.write data fun outcome => Process.stop (outcome.elim (.ok ()) .error)

/-- A write whose error is not looked at. -/
def tryWrite (data : Bytes) : Talk Unit := Process.write data fun _ => Process.stop (.ok ())

/-- An error with a text in front of it. -/
def wrap (text : Bytes) : Except Error α → Except Error α
  | .ok a => .ok a
  | .error .panicked => .error .panicked
  | .error err => .error (.base text err)

def orFail (talk : Talk α) (text : Bytes) : Talk α :=
  Process.bind (fun result => Process.stop (wrap text result)) talk

def run (talk : Talk α) (conn : Conn) : Except Error α × Conn := Process.run readFull talk conn

end Talk

end V2RootCore.Go
