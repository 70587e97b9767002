import V2RootCore.Go.Io
import V2RootCore.Go.Map

/-!
# Users of an inbound

The validators of VLESS and Trojan keep their users in two maps, by e-mail and by what a client sends.
-/

namespace V2RootCore

open Go

/-- What is stored of a user, and what stands for it: `process` is applied to what a client sends. A text
is lower-cased by `strings.ToLower`, which leaves nothing but the empty text empty. -/
structure Access (ι κ υ : Type) where
  email : υ → Bytes
  id : υ → ι
  process : ι → κ
  toLower : Bytes → Bytes
  toLower_eq_nil : ∀ s, toLower s = [] ↔ s = []

structure Users (κ υ : Type) where
  email : Map υ := []
  users : List (κ × υ) := []

namespace Users

variable {ι κ υ : Type} [DecidableEq κ]

def store (v : Users κ υ) (key : κ) (u : υ) : Users κ υ :=
  { v with users := v.users.filter (fun entry => entry.1 ≠ key) ++ [(key, u)] }

def add (access : Access ι κ υ) (v : Users κ υ) (u : υ) : Except Error (Users κ υ) :=
  let key := access.process (access.id u)
  if access.email u = [] then .ok (v.store key u)
  else
    let email := access.toLower (access.email u)
    match v.email.lookup email with
    | some _ => .error (.new (ascii "User " ++ access.email u ++ ascii " already exists."))
    | none => .ok ({ v with email := v.email.set email u }.store key u)

def del (access : Access ι κ υ) (v : Users κ υ) (e : Bytes) : Except Error (Users κ υ) :=
  if e = [] then .error (.new (ascii "Email must not be empty."))
  else
    let le := access.toLower e
    match v.email.lookup le with
    | none => .error (.new (ascii "User " ++ e ++ ascii " not found."))
    | some u => .ok
        { email := v.email.filter fun entry => entry.1 ≠ le
          users := v.users.filter fun entry => entry.1 ≠ access.process (access.id u) }

def get (access : Access ι κ υ) (v : Users κ υ) (id : ι) : Option υ := v.users.lookup (access.process id)

end Users

end V2RootCore
