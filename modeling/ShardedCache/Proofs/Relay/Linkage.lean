import ShardedCache.Proofs.Stream.Arrival
import ShardedCache.Relay.Link

/-! A linkage says how links come about and when they are of use; what their backends then do is in their plans.  A
station is a pool of links with the world outside, which logs every exchange. -/

namespace ShardedCache

/-- In one exchange a backend supplies one frame, or the beginning of one before the link fails. -/
def Exchange.Framed (exchange : Exchange) : Prop :=
  ∃ p : Packet, p.Complete ∧ Inlet.arriving exchange.reads <+: p.encode

/-- How links are made and judged; `ω` is all that this depends on. -/
structure Linkage (ω : Type) where
  connect : Address → ω → Arrival × ω
  valid : ω → Link → Bool
  spoil : Link → Link

/-- Spoiled links are of no use, and links lead to backends that supply frames. -/
structure Linkage.Sound {ω : Type} (linkage : Linkage ω) : Prop where
  spoils : ∀ outside link, linkage.valid outside (linkage.spoil link) = false
  frames : ∀ address outside exchanges lifespan after,
    linkage.connect address outside = (.accept exchanges lifespan, after) →
      ∀ exchange ∈ exchanges, exchange.Framed

structure Exchanged where
  link : Nat
  request : Octets
  accepted : Octets
  answer : Except Fault Octets

/-- The world outside with a record of the links that were made and of what was exchanged on them. -/
structure Logged (ω : Type) where
  outside : ω
  /-- Where each link leads and what is planned on it, by its number. -/
  plans : List (Address × List Exchange) := []
  log : List Exchanged := []

namespace Logged

variable {ω : Type}

/-- How many requests have been written to a link as a whole. -/
def completed (world : Logged ω) (link : Nat) : Nat :=
  world.log.countP fun past => past.link = link ∧ past.accepted = past.request

/-- What arrives on a link as the answer to its request number `k`. -/
def supplied? (world : Logged ω) (link k : Nat) : Option Octets :=
  (world.plans[link]?.bind (·.2[k]?)).map (Inlet.arriving ·.reads)

def record (world : Logged ω) (past : Exchanged) : Logged ω :=
  { world with log := world.log ++ [past] }

end Logged

namespace Linkage

variable {ω : Type}

def dial (linkage : Linkage ω) (address : Address) (world : Logged ω) :
    Except IoError Link × Logged ω :=
  match linkage.connect address world.outside with
  | (.refuse error, outside) => (.error error, { world with outside := outside })
  | (.accept exchanges lifespan, outside) =>
    (.ok { id := world.plans.length, peer := address, plan := exchanges, lifespan := lifespan },
      { world with outside := outside, plans := world.plans ++ [(address, exchanges)] })

def backplane (linkage : Linkage ω) : Backplane Link (Logged ω) where
  dial := linkage.dial
  usable world := linkage.valid world.outside
  converse request link world :=
    let (accepted, answer, after) := link.exchange request
    (answer, after, world.record { link := link.id, request, accepted, answer })
  spoil := linkage.spoil

end Linkage

structure Station (ω : Type) where
  pool : Pool Address Link
  world : Logged ω

inductive Move (ω : Type) where
  | route (now : Nat) (request : Packet)
  | sweep (now : Nat)
  /-- Something happens outside, such as the death of a link. -/
  | elapse (outside : ω)

namespace Station

variable {ω : Type}

def new (lifetime : Nat) (outside : ω) : Station ω :=
  { pool := { lifetime := lifetime }, world := { outside := outside } }

def route (linkage : Linkage ω) (owner : Octets → Address) (now : Nat) (request : Packet)
    (station : Station ω) : Reply × Station ω :=
  let routed := Relay.route linkage.backplane owner now request station.pool station.world
  (routed.reply, ⟨routed.pool, routed.world⟩)

def move (linkage : Linkage ω) (owner : Octets → Address) (station : Station ω) : Move ω → Station ω
  | .route now request => (station.route linkage owner now request).2
  | .sweep now =>
    { station with pool := (station.pool.sweep (linkage.valid station.world.outside) now).pool }
  | .elapse outside => { station with world := { station.world with outside := outside } }

def run (linkage : Linkage ω) (owner : Octets → Address) (moves : List (Move ω)) (station : Station ω) :
    Station ω :=
  moves.foldl (move linkage owner) station

end Station

end ShardedCache
