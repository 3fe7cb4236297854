import ShardedCache.Pool.Shared
import ShardedCache.Relay

namespace ShardedCache.Relay

/-- A relay as each of its clients reaches it; they share the pool. -/
structure Shared (m : Type → Type) (κ : Type) where
  pool : Pool.Shared m Address κ
  owner : Octets → Address
  dial : Address → m (Except IoError κ)
  /-- Sends a request and waits for the frame that answers it. -/
  converse : Octets → κ → m (Except Fault Octets × κ)
  spoil : κ → κ

namespace Shared

variable {m : Type → Type} [Monad m] {κ : Type}

/-- `Relay.forward`, step by step. -/
def forward (shared : Shared m κ) (op : Opcode) (address : Address) (request : Packet) : m Reply := do
  let failed := Reply.status request.header .internalError
  match ← shared.pool.borrow (shared.dial address) address with
  | .error _ => return failed
  | .ok conn =>
    match ← shared.converse request.encode conn with
    | (.ok frame, conn) =>
      shared.pool.giveBack address conn
      return conclude op frame
    | (.error _, conn) =>
      shared.pool.giveBack address (shared.spoil conn)
      return failed

def route (shared : Shared m κ) (request : Packet) : m Reply :=
  match errand request with
  | .settled reply => return reply
  | .forward op key => shared.forward op (shared.owner key) request

end Shared

end ShardedCache.Relay
