import V2RootCore.Go.Map
import V2RootCore.Router.LeastLoad

/-!
# Taking turns

`RoundRobinStrategy` of `balancing.go`.
-/

namespace V2RootCore.Router

open Go

structure RoundRobinStrategy where
  index : Nat := 0

variable (observation : Option (List OutboundStatus)) (tags : List Bytes)

/-- A candidate that is not observed is considered alive. -/
def aliveTags : List Bytes :=
  match observation with
  | none => tags
  | some status =>
      let statusMap : Map OutboundStatus := status.foldl (fun m status => m.set status.outboundTag status) []
      tags.filter fun candidate => (statusMap.lookup candidate).all OutboundStatus.alive

namespace RoundRobinStrategy

def pickOutbound (s : RoundRobinStrategy) : Bytes × RoundRobinStrategy :=
  let tags := aliveTags observation tags
  if h : tags.length = 0 then ([], s)
  else (tags.get ⟨s.index % tags.length, Nat.mod_lt _ (Nat.pos_of_ne_zero h)⟩, ⟨(s.index + 1) % tags.length⟩)

def picks : Nat → RoundRobinStrategy → List Bytes
  | 0, _ => []
  | calls + 1, s => (s.pickOutbound observation tags).1 :: picks calls (s.pickOutbound observation tags).2

end RoundRobinStrategy

end V2RootCore.Router
