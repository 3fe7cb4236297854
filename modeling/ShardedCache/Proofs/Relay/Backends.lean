import ShardedCache.Proofs.Service.History
import ShardedCache.Proofs.Session.Account
import ShardedCache.Relay.Link

/-! Behind each address stands one store, and behind each connection to it a session over that store.  Octets travel
both ways in whatever chunks a `Transit` makes of them. -/

namespace ShardedCache

/-- How octets travel: in what chunks requests and responses arrive in each exchange, and how writes are taken.
Nothing fails for good and nothing is lost. -/
structure Transit where
  inbound : Nat → Octets → Inlet
  outbound : Nat → Octets → Inlet
  writes : Nat → List WriteEvent
  sinks : Nat → Sink
  inbound_flows : ∀ n bs, ∀ event ∈ inbound n bs, event.flows
  outbound_flows : ∀ n bs, ∀ event ∈ outbound n bs, event.flows
  arriving_inbound : ∀ n bs, Inlet.arriving (inbound n bs) = bs
  arriving_outbound : ∀ n bs, Inlet.arriving (outbound n bs) = bs
  writes_flow : ∀ n, ∀ event ∈ writes n, event.flows
  sinks_open : ∀ n, (sinks n).Open

def Transit.direct : Transit where
  inbound _ bs := if bs = [] then [] else [.data bs]
  outbound _ bs := if bs = [] then [] else [.data bs]
  writes _ := []
  sinks _ := {}
  inbound_flows := by
    intro n bs event hevent
    split at hevent
    · cases hevent
    · obtain rfl := List.mem_singleton.mp hevent
      simpa [ReadEvent.flows]
  outbound_flows := by
    intro n bs event hevent
    split at hevent
    · cases hevent
    · obtain rfl := List.mem_singleton.mp hevent
      simpa [ReadEvent.flows]
  arriving_inbound := by
    intro n bs
    split <;> simp_all [Inlet.arriving]
  arriving_outbound := by
    intro n bs
    split <;> simp_all [Inlet.arriving]
  writes_flow := nofun
  sinks_open _ := ⟨nofun, nofun⟩

structure Line where
  link : Link
  progress : Progress

/-- The link once the backend is about to do its part of an exchange. -/
def Line.facing (line : Line) (exchange : Exchange) : Link :=
  { line.link with plan := [exchange] }

/-- The stores behind all addresses, and the second on every clock. -/
structure Backends where
  stores : Address → Store := fun _ => {}
  clock : Nat := 0
  /-- The connections made and exchanges begun so far. -/
  traffic : Nat := 0

namespace Backends

def put (world : Backends) (address : Address) (store : Store) : Backends :=
  { world with
    stores := fun other => if other = address then store else world.stores other
    traffic := world.traffic + 1 }

def handler (world : Backends) : Handler Store :=
  fun request store => Service.answer request world.clock store

def dial (transit : Transit) (limit : Nat) (address : Address) (world : Backends) :
    Except IoError Line × Backends :=
  let (progress, store) :=
    Session.start limit world.handler (transit.sinks world.traffic) (world.stores address)
  (.ok { link := { id := world.traffic, peer := address, plan := [] }, progress },
    world.put address store)

/-- What the session at the far end makes of octets that arrive: what it writes, where it stands then, and
its store. -/
def serve (transit : Transit) (limit : Nat) (arrived : Octets) (line : Line) (world : Backends) :
    Octets × Progress × Store :=
  let (progress, store) :=
    (Session.reads (transit.inbound world.traffic arrived)).foldl
      (Session.advance limit world.handler) (line.progress, world.stores line.link.peer)
  let before := line.progress.session.outbox.sink.sent
  (progress.session.outbox.sink.sent.drop before.length, progress, store)

def converse (transit : Transit) (limit : Nat) (request : Octets) (line : Line) (world : Backends) :
    Except Fault Octets × Line × Backends :=
  let room := transit.writes world.traffic
  let (accepted, _) := WriteEvent.pushAll .shortWrite (line.link.writes ++ room) request
  let (written, progress, store) := serve transit limit accepted line world
  let exchange : Exchange := { reads := transit.outbound world.traffic written, writes := room }
  let (_, answer, link) := (line.facing exchange).exchange request
  (answer, { link, progress }, world.put line.link.peer store)

/-- The backends as a relay reaches them, whatever it thinks of its connections. -/
def plane (transit : Transit) (limit : Nat) (usable : Backends → Line → Bool) (spoil : Line → Line) :
    Backplane Line Backends where
  dial := dial transit limit
  usable := usable
  converse := converse transit limit
  spoil := spoil

def relayed (plane : Backplane Line Backends) (owner : Octets → Address) :
    History → Pool Address Line → Backends → List Reply
  | [], _, _ => []
  | (request, now) :: history, pool, world =>
    let routed := Relay.route plane owner now request pool { world with clock := now }
    routed.reply :: relayed plane owner history routed.pool routed.world

end Backends

def Service.answered : History → Store → List (Except Fault Reply)
  | [], _ => []
  | (request, now) :: history, store =>
    let (reply, store) := answer request now store
    reply :: answered history store

end ShardedCache
