import V2RootCore.Loop
import V2RootCore.Net.Address

/-!
# The order in which addresses are tried

`sortIPs` of `happy_eyeballs.go`. An address has four or sixteen bytes.
-/

namespace V2RootCore.Transport

open Go Net

/-- A `net.IP` that `IPAddress` takes. -/
def IP := { ip : Bytes // ip.length = 4 ∨ ip.length = 16 }
  deriving DecidableEq

namespace IP

def isIPv4 (ip : IP) : Bool := ip.1.length = 4

/-- `net.IPAddress(ip).IP()`. -/
def parsedIp (ip : IP) : IP :=
  if h : ip.1.length = 16 ∧ ip.1.take 12 = v4InV6Prefix then
    ⟨ip.1.drop 12, .inl (by rw [List.length_drop, h.1])⟩
  else ip

end IP

structure Cursor where
  newIPs : List IP := []
  consumeIP4 : Nat := 0
  consumeIP6 : Nat := 0
  consumeTurn : UInt32 := 0
  ip4turn : Bool

/-- The body of the loop. -/
def consume (ip4 ip6 : List IP) (interleave : UInt32) (c : Cursor) : Except Error (List IP ⊕ Cursor) :=
  if c.ip4turn then
    match ip4[c.consumeIP4]? with
    | none => .error .panicked
    | some ip =>
        if c.consumeIP4 + 1 = ip4.length then
          if c.consumeIP6 ≤ ip6.length then .ok (.inl (c.newIPs ++ [ip] ++ ip6.drop c.consumeIP6))
          else .error .panicked
        else if c.consumeTurn + 1 = interleave then
          .ok (.inr { c with
            newIPs := c.newIPs ++ [ip], consumeIP4 := c.consumeIP4 + 1, consumeTurn := 0, ip4turn := false })
        else
          .ok (.inr { c with
            newIPs := c.newIPs ++ [ip], consumeIP4 := c.consumeIP4 + 1, consumeTurn := c.consumeTurn + 1 })
  else
    match ip6[c.consumeIP6]? with
    | none => .error .panicked
    | some ip =>
        if c.consumeIP6 + 1 = ip6.length then
          if c.consumeIP4 ≤ ip4.length then .ok (.inl (c.newIPs ++ [ip] ++ ip4.drop c.consumeIP4))
          else .error .panicked
        else if c.consumeTurn + 1 = interleave then
          .ok (.inr { c with
            newIPs := c.newIPs ++ [ip], consumeIP6 := c.consumeIP6 + 1, consumeTurn := 0, ip4turn := true })
        else
          .ok (.inr { c with
            newIPs := c.newIPs ++ [ip], consumeIP6 := c.consumeIP6 + 1, consumeTurn := c.consumeTurn + 1 })

def family4 (ips : List IP) : List IP := (ips.map IP.parsedIp).filter IP.isIPv4

def family6 (ips : List IP) : List IP := (ips.map IP.parsedIp).filter fun ip => !ip.isIPv4

/-- Each turn of the loop consumes one address, so the number of addresses is fuel enough. -/
def sortIPs (ips : List IP) (prioritizeIPv6 : Bool) (interleave : UInt32) : Except Error (List IP) :=
  if ips.length = 0 then .ok ips
  else if (family4 ips).length = 0 ∨ (family6 ips).length = 0 then .ok ips
  else
    loop .panicked (consume (family4 ips) (family6 ips) interleave) ips.length { ip4turn := !prioritizeIPv6 }

end V2RootCore.Transport
