import ShardedCache.Relay
import ShardedCache.Stream.Framed

/-! A link is a connection whose backend follows a plan, exchange by exchange; a fleet is what all the backends will
do, and what has been sent to them. -/

namespace ShardedCache

/-- What a backend does in one exchange: how it takes the request, whether the flush after it
succeeds, and what it then sends. -/
structure Exchange where
  reads : List ReadEvent := []
  writes : List WriteEvent := []
  flushError : Option IoError := none
deriving Repr

inductive Arrival where
  | refuse (error : IoError)
  /-- A connection with these exchanges, of no more use once `lifespan` of them have begun. -/
  | accept (exchanges : List Exchange) (lifespan : Option Nat)
deriving Repr

structure Link where
  id : Nat
  peer : Address
  /-- The exchanges to come; after them the backend takes everything and sends nothing. -/
  plan : List Exchange
  lifespan : Option Nat := none
  begun : Nat := 0
  /-- The write events not met yet. -/
  writes : List WriteEvent := []
  /-- What the backend sent and nobody read. -/
  inlet : Inlet := []
  spoiled : Bool := false
deriving Repr

namespace Link

/-- Sends a request and reads the frame that answers it: the octets accepted, the frame, and the
link.  What earlier exchanges left over comes first on either side. -/
def exchange (request : Octets) (link : Link) : Octets × Except Fault Octets × Link :=
  let next := link.plan.head?.getD {}
  let link := { link with plan := link.plan.tail, begun := link.begun + 1 }
  let (accepted, outcome, writes) :=
    WriteEvent.pushAll .shortWrite (link.writes ++ next.writes) request
  let link := { link with writes := writes }
  match outcome, next.flushError with
  | .error error, _ => (accepted, .error (.io error), link)
  | .ok (), some error => (accepted, .error (.io error), link)
  | .ok (), none =>
    let (answer, rest) := (link.inlet ++ next.reads).readFrame Frame.defaultLimit
    let link := { link with inlet := rest }
    match answer with
    | .error fault => (accepted, .error fault, link)
    | .ok frame =>
      let magic := frame.headD 0
      if magic = Header.responseMagic then (accepted, .ok frame, link)
      else (accepted, .error (.backend (.notAResponse magic)), link)

end Link

/-- What one exchange sent: on which link, where to, and the octets that were accepted. -/
structure Sending where
  link : Nat
  peer : Address
  bytes : Octets
deriving DecidableEq, Repr

/-- All the backends: what connecting to each will bring, and what was sent so far. -/
structure Fleet where
  arrivals : List (Address × List Arrival)
  made : Nat := 0
  /-- The links that broke down, or will. -/
  dead : List Nat := []
  sent : List Sending := []

namespace Fleet

def arrive (address : Address) :
    List (Address × List Arrival) → Option Arrival × List (Address × List Arrival)
  | [] => (none, [])
  | (peer, arrivals) :: others =>
    if peer = address then (arrivals.head?, (peer, arrivals.tail) :: others)
    else
      let (next, others) := arrive address others
      (next, (peer, arrivals) :: others)

/-- Connects to `address`, where `refusal` is what comes when nothing is planned there. -/
def dial (refusal : IoError) (address : Address) (fleet : Fleet) : Except IoError Link × Fleet :=
  let (next, arrivals) := arrive address fleet.arrivals
  let fleet := { fleet with arrivals := arrivals }
  match next with
  | none => (.error refusal, fleet)
  | some (.refuse error) => (.error error, fleet)
  | some (.accept exchanges lifespan) =>
    (.ok { id := fleet.made, peer := address, plan := exchanges, lifespan := lifespan },
      { fleet with made := fleet.made + 1 })

/-- A link is usable while no exchange on it failed, it did not break down and its lifespan lasts. -/
def usable (fleet : Fleet) (link : Link) : Bool :=
  !link.spoiled && !fleet.dead.contains link.id && link.lifespan.all (link.begun < ·)

def kill (fleet : Fleet) (id : Nat) : Fleet :=
  { fleet with dead := id :: fleet.dead }

def backplane (refusal : IoError) : Backplane Link Fleet where
  dial := dial refusal
  usable := usable
  converse request link fleet :=
    let (accepted, answer, link) := link.exchange request
    (answer, link, { fleet with sent := fleet.sent ++ [⟨link.id, link.peer, accepted⟩] })
  spoil link := { link with spoiled := true }

/-- The same over sockets, where a link is of no use either if something waits to be read on it: it
would be taken for the next answer, or it is the end of the stream. -/
def socketBackplane (refusal : IoError) : Backplane Link Fleet :=
  { backplane refusal with usable := fun fleet link => fleet.usable link && link.inlet.isEmpty }

end Fleet

end ShardedCache
