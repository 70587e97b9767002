import V2RootCore.Proxyman.Outbound

/-!
# Candidates of a balancer

`Select` keeps its results under the selectors, joined by commas, until a handler is added or removed.
-/

namespace V2RootCore.Proxyman

open Go

/-- The manager with its `tagsCache`. -/
structure Selector where
  manager : Manager := {}
  tagsCache : Map (List Bytes) := []

def Manager.tags (m : Manager) : List Bytes := m.taggedHandler.map Prod.fst

/-- `sort.Strings`. -/
def sortStrings (tags : List Bytes) : List Bytes := tags.mergeSort fun a b => a ≤ b

def selects (selectors : List Bytes) (tag : Bytes) : Bool := selectors.any (hasPrefix tag)

/-- `strings.Join(selectors, ",")`. -/
def joined (selectors : List Bytes) : Bytes := [44].intercalate selectors

namespace Selector

/-- `fails` is what `Start` of the handler returns, if it is called. -/
def addHandler (s : Selector) (handler : Handler) (fails : Option Error) : Selector :=
  { manager := (s.manager.addHandler handler fails []).1, tagsCache := [] }

def removeHandler (s : Selector) (tag : Bytes) : Selector :=
  if tag = [] then s else { manager := (s.manager.removeHandler tag).1, tagsCache := [] }

/-- The tags come in the order in which the map is walked. -/
def select (s : Selector) (selectors order : List Bytes) : List Bytes × Selector :=
  match s.tagsCache.lookup (joined selectors) with
  | some cache => (cache, s)
  | none =>
      let tags := sortStrings (order.filter (selects selectors))
      (tags, { s with tagsCache := s.tagsCache.set (joined selectors) tags })

end Selector

end V2RootCore.Proxyman
