import V2RootCore.Users

/-!
# Users of a VLESS inbound

The third group of an ID may carry other data, so users are found without it.
-/

namespace V2RootCore.Vless

open Go

abbrev UUID := List.Vector UInt8 16

def processUUID (id : UUID) : UUID := (id.set 6 0).set 7 0

structure MemoryAccount where
  id : UUID
  deriving DecidableEq

structure MemoryUser where
  account : MemoryAccount
  email : Bytes := []
  deriving DecidableEq

namespace MemoryValidator

/-- The users of `MemoryValidator`, for a `strings.ToLower`. -/
def access (toLower : Bytes → Bytes) (htoLower : ∀ s, toLower s = [] ↔ s = []) :
    Access UUID UUID MemoryUser where
  email := MemoryUser.email
  id := fun u => u.account.id
  process := processUUID
  toLower := toLower
  toLower_eq_nil := htoLower

end MemoryValidator

end V2RootCore.Vless
