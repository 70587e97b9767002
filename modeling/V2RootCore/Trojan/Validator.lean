import V2RootCore.Users
import V2RootCore.Uuid

/-!
# Users of a Trojan inbound
-/

namespace V2RootCore.Trojan

open Go

structure MemoryAccount where
  key : Bytes

structure MemoryUser where
  account : MemoryAccount
  email : Bytes := []

def hexString (data : Bytes) : Bytes := Uuid.encodeToString data

abbrev Validator := Users Bytes MemoryUser

/-- The users of `Validator`, found by their hashed key as it is. -/
def Validator.access (toLower : Bytes → Bytes) (htoLower : ∀ s, toLower s = [] ↔ s = []) :
    Access Bytes Bytes MemoryUser where
  email := MemoryUser.email
  id := fun u => hexString u.account.key
  process := fun hash => hash
  toLower := toLower
  toLower_eq_nil := htoLower

end V2RootCore.Trojan
