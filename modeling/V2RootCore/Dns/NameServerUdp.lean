import V2RootCore.Net.Address

/-!
# Answers of a DNS server

The records `parseResponse` makes of a reply, and which names can be asked for. A reply is what the parser of
messages finds in a packet. Times are in nanoseconds.
-/

namespace V2RootCore.Dns

open Go Net

def second : Nat := 10 ^ 9

inductive RecordType where
  | a
  | aaaa
  deriving DecidableEq, Repr

/-- The body of an answer; `broken` is one that cannot be parsed. -/
inductive Body where
  | a (ip : List.Vector UInt8 4)
  | aaaa (ip : List.Vector UInt8 16)
  | other
  | broken
  deriving DecidableEq

structure Answer where
  ttl : UInt32
  body : Body
  deriving DecidableEq

structure Reply where
  id : UInt16
  truncated : Bool
  rCode : Nat
  answers : List Answer
  deriving DecidableEq

structure IPRecord where
  reqID : UInt16
  ip : List Bytes
  expire : Nat
  rCode : Nat
  truncated : Bool
  deriving DecidableEq

/-- The loop of `parseResponse`. -/
def IPRecord.addAnswers (now : Nat) (ipRecord : IPRecord) : List Answer → IPRecord
  | [] => ipRecord
  | answer :: answers =>
      let ttl := if answer.ttl = 0 then 1 else answer.ttl
      let expire := now + ttl.toNat * second
      let ipRecord := if expire < ipRecord.expire then { ipRecord with expire } else ipRecord
      match answer.body with
      | .a ip => addAnswers now { ipRecord with ip := ipRecord.ip ++ [ip.toList] } answers
      | .aaaa ip =>
          -- A mapped IPv4 address is not kept.
          if ip.toList.take 12 = v4InV6Prefix then addAnswers now ipRecord answers
          else addAnswers now { ipRecord with ip := ipRecord.ip ++ [ip.toList] } answers
      | .other => addAnswers now ipRecord answers
      | .broken => ipRecord

def parseResponse (now : Nat) (reply : Reply) : IPRecord :=
  { reqID := reply.id, ip := [], expire := now + 300 * second, rCode := reply.rCode,
    truncated := reply.truncated : IPRecord }.addAnswers now reply.answers

structure Record where
  a : Option IPRecord := none
  aaaa : Option IPRecord := none
  deriving DecidableEq

def Record.get (record : Record) : RecordType → Option IPRecord
  | .a => record.a
  | .aaaa => record.aaaa

/-- A record without what has expired. -/
def Record.cleanup (now : Nat) (record : Record) : Record :=
  { a := record.a.filter fun r => now ≤ r.expire
    aaaa := record.aaaa.filter fun r => now ≤ r.expire }

namespace ClassicNameServer

def enabled (ipv4Enable ipv6Enable : Bool) : List RecordType :=
  (if ipv4Enable then [.a] else []) ++ if ipv6Enable then [.aaaa] else []

end ClassicNameServer

end V2RootCore.Dns
