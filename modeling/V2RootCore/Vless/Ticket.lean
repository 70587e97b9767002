import V2RootCore.Vless.CommonConn

/-!
# The tickets of a VLESS server

A server keeps a session for each ticket it has issued. Tickets are listed in the order of issue, and
`lasts` has the last ticket of each minute in which tickets expire. The janitor deletes all tickets up
to that one. Times are Unix times in seconds.
-/

namespace V2RootCore.Vless

open Go

/-- The type `[16]byte` of tickets. -/
abbrev Ticket := List.Vector UInt8 16

def zeroTicket : Ticket := List.Vector.replicate 16 0

/-- The fields of `ServerInstance` that have to do with tickets. A session is the key it stands for. -/
structure ServerInstance where
  secondsFrom : Int64
  secondsTo : Int64
  closed : Bool := false
  lasts : Int64 → Option Ticket := fun _ => none
  tickets : List Ticket := []
  sessions : Ticket → Option Bytes := fun _ => none

namespace ServerInstance

/-- The time that `Init` and `Handshake` take for the life of all tickets. -/
def lifetime (i : ServerInstance) : Int64 := max i.secondsFrom i.secondsTo

/-- The loop of the janitor: what is left of the list if it finds the last ticket, and the sessions. -/
def sweep (last : Ticket) : List Ticket → (Ticket → Option Bytes) →
    Option (List Ticket) × (Ticket → Option Bytes)
  | [], sessions => (none, sessions)
  | ticket :: tickets, sessions =>
      let sessions := Function.update sessions ticket none
      if ticket = last then (some tickets, sessions) else sweep last tickets sessions

/-- One pass of the janitor that `Init` starts. -/
def janitor (i : ServerInstance) (now : Int64) : ServerInstance :=
  if i.closed then i
  else
    let minute := now / 60
    let last := (i.lasts minute).getD zeroTicket
    let i := { i with
      lasts := Function.update (Function.update i.lasts minute none) (minute - 1) none }
    if last ≠ zeroTicket then
      let (tickets, sessions) := sweep last i.tickets i.sessions
      { i with tickets := tickets.getD i.tickets, sessions }
    else i

/-- The seconds that a client may use its ticket, from a random number in the range that `Handshake`
asks for. -/
def seconds (i : ServerInstance) (random : Int64) : Int64 :=
  if i.secondsTo = 0 then i.secondsFrom * random / 100 else random

/-- A ticket starts with its seconds. -/
def ticketOf (seconds : Int64) (random : Ticket) : Ticket :=
  ⟨encodeLength seconds.toInt.toNat ++ random.toList.drop 2, by simp [encodeLength]⟩

/-- The part of `Handshake` that issues a ticket. -/
def issue (i : ServerInstance) (now seconds : Int64) (ticket : Ticket) (pfsKey : Bytes) :
    ServerInstance :=
  if 0 < seconds then
    { i with
      lasts := Function.update i.lasts ((now + i.lifetime) / 60 + 2) (some ticket)
      tickets := i.tickets ++ [ticket]
      sessions := Function.update i.sessions ticket (some pfsKey) }
  else i

end ServerInstance

/-- A server, the time of its last event, and the tickets it has issued with the times of that. -/
structure TicketStore where
  server : ServerInstance
  clock : Int64 := Int64.minValue
  issued : List (Ticket × Int64) := []

namespace TicketStore

inductive Event where
  /-- A handshake, with its random numbers. -/
  | issue (now : Int64) (random : Int64) (ticket : Ticket) (pfsKey : Bytes)
  | janitor (now : Int64)
  | close (now : Int64)

def Event.now : Event → Int64
  | issue now _ _ _ => now
  | janitor now => now
  | close now => now

def step (st : TicketStore) : Event → TicketStore
  | .issue now random ticket pfsKey =>
      let seconds := st.server.seconds random
      let ticket := ServerInstance.ticketOf seconds ticket
      { server := st.server.issue now seconds ticket pfsKey
        clock := now
        issued := if 0 < seconds then st.issued ++ [(ticket, now)] else st.issued }
  | .janitor now => { st with server := st.server.janitor now, clock := now }
  | .close now => { st with server := { st.server with closed := true }, clock := now }

def run (st : TicketStore) (events : List Event) : TicketStore := Transition.run step st events

/-- No ticket is issued twice. -/
def Fresh (st : TicketStore) : Event → Prop
  | .issue _ random ticket _ =>
      ServerInstance.ticketOf (st.server.seconds random) ticket ∉ st.issued.map Prod.fst
  | _ => True

instance (st : TicketStore) : (event : Event) → Decidable (st.Fresh event)
  | .issue _ _ _ _ => inferInstanceAs (Decidable (¬ _))
  | .janitor _ => inferInstanceAs (Decidable True)
  | .close _ => inferInstanceAs (Decidable True)

/-- What is asked of the events of a run: the clock does not go back, and tickets are distinct. -/
def Regular (st : TicketStore) (event : Event) : Prop := st.clock ≤ event.now ∧ st.Fresh event

instance (st : TicketStore) (event : Event) : Decidable (st.Regular event) :=
  inferInstanceAs (Decidable (_ ∧ _))

end TicketStore

end V2RootCore.Vless
