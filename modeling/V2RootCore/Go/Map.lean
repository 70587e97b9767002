import V2RootCore.Go.Strings

/-!
# Maps

A Go map with string keys is the list of its keys and values. `List.lookup` reads it.
-/

namespace V2RootCore.Go

abbrev Map (α : Type) := List (Bytes × α)

/-- `m[key] = value`. -/
def Map.set {α : Type} (m : Map α) (key : Bytes) (value : α) : Map α :=
  m.filter (fun field => field.1 ≠ key) ++ [(key, value)]

end V2RootCore.Go
