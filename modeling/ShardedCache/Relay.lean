import ShardedCache.Address
import ShardedCache.Pool
import ShardedCache.Reply

/-! Lookups and stores go to the backend that owns their key, over a pooled connection.  How backends are reached is
left to a `Backplane`, so that the same relay runs over any. -/

namespace ShardedCache

/-- How a relay reaches its backends: `κ` is a connection and `ν` the world outside. -/
structure Backplane (κ ν : Type) where
  dial : Address → ν → Except IoError κ × ν
  /-- Whether the connection may be used, or used again. -/
  usable : ν → κ → Bool
  converse : Octets → κ → ν → Except Fault Octets × κ × ν
  /-- Marks a connection on which an exchange failed; it is out of step from then on. -/
  spoil : κ → κ

inductive Errand where
  | settled (reply : Reply)
  | forward (op : Opcode) (key : Octets)
deriving DecidableEq, Repr

namespace Relay

/-- A request with a key goes to its owner if the key is whole; the rest is settled here. -/
def errand (request : Packet) : Errand :=
  let keyed (op : Opcode) : Errand :=
    match request.key? with
    | some key => .forward op key
    | none => .settled (.invalidArguments op request.header)
  let notSupported := Reply.status request.header .notSupported
  match request.header.command? with
  | some .get => keyed .get
  | some .getK => keyed .getK
  | some .getQ => keyed .getQ
  | some .getKQ => keyed .getKQ
  | some .set => keyed .set
  | some .setQ => keyed .setQ
  | some .noop => .settled .flush
  | some .quitQ => .settled .close
  | some .quit => .settled notSupported.andClose
  | _ => .settled notSupported

/-- What the client gets for the backend's answer: the frame as it came, or nothing if it reports
that a quiet change succeeded. -/
def conclude (op : Opcode) (frame : Octets) : Reply :=
  if op.suppressesSuccess && Header.peekStatus? frame = some 0 then .silent else .send frame

structure Routed (κ ν : Type) where
  reply : Reply
  pool : Pool Address κ
  world : ν
  closed : List κ := []

variable {κ ν : Type}

/-- Exchanges the request with the backend at `address`.  The connection goes back to the pool
whatever happened; one that failed is of no use there. -/
def forward (plane : Backplane κ ν) (now : Nat) (op : Opcode) (address : Address) (request : Packet)
    (pool : Pool Address κ) (world : ν) : Routed κ ν :=
  let failed := Reply.status request.header .internalError
  let (loan, world) := pool.borrow (plane.usable world) (plane.dial address) address world
  match loan.answer with
  | .error _ => { reply := failed, pool := loan.pool, world := world, closed := loan.closed }
  | .ok conn =>
    let (answer, conn, world) := plane.converse request.encode conn world
    let (reply, conn) :=
      match answer with
      | .ok frame => (conclude op frame, conn)
      | .error _ => (failed, plane.spoil conn)
    -- A spoiled connection is not usable, so that the pool closes it.
    let returned := loan.pool.giveBack (plane.usable world) now address conn
    { reply := reply, pool := returned.pool, world := world, closed := loan.closed ++ returned.closed }

def route (plane : Backplane κ ν) (owner : Octets → Address) (now : Nat) (request : Packet)
    (pool : Pool Address κ) (world : ν) : Routed κ ν :=
  match errand request with
  | .settled reply => { reply := reply, pool := pool, world := world }
  | .forward op key => forward plane now op (owner key) request pool world

end Relay

end ShardedCache
