import ShardedCache.Pool

/-! The operations of a pool step by step, as several users run them beside each other in a monad `m`. -/

namespace ShardedCache.Pool

/-- A pool as each of its users reaches it.  Connections are judged and closed while nobody holds the
queues. -/
structure Shared (m : Type → Type) (α κ : Type) where
  /-- Changes the queues while nobody else does. -/
  update {β : Type} (change : Pool α κ → β × Pool α κ) : m β
  usable : κ → m Bool
  close : κ → m Unit
  clock : m Nat

namespace Shared

variable {m : Type → Type} [Monad m] {α κ β : Type} [DecidableEq α]

def look (shared : Shared m α κ) (read : Pool α κ → β) : m β :=
  shared.update fun pool => (read pool, pool)

def takeIdle (shared : Shared m α κ) (key : α) : Nat → m (Option κ)
  | 0 => return none
  | tries + 1 => do
    match ← shared.update (·.pop key) with
    | none => return none
    | some entry =>
      if ← shared.usable entry.conn then return some entry.conn
      else
        shared.close entry.conn
        shared.takeIdle key tries

def borrow (shared : Shared m α κ) (create : m (Except IoError κ)) (key : α) : m (Except IoError κ) := do
  -- The last try finds the queue empty, unless somebody hands a connection back meanwhile.
  let tries ← shared.look fun pool => pool.idleCount key + 1
  match ← shared.takeIdle key tries with
  | some conn => return .ok conn
  | none => create

def giveBack (shared : Shared m α κ) (key : α) (conn : κ) : m Unit := do
  let wanted ← if ← shared.look (·.isClosed) then pure false else shared.usable conn
  if wanted then
    let now ← shared.clock
    shared.update fun pool => ((), pool.push key ⟨conn, now⟩)
  else shared.close conn

/-- Closes what a sweep does not keep, and gives what it keeps. -/
def judge (shared : Shared m α κ) (lifetime now : Nat) : List (Idle κ) → m (List (Idle κ))
  | [] => return []
  | entry :: rest => do
    let wanted ← if now - entry.since < lifetime then shared.usable entry.conn else pure false
    if wanted then
      return entry :: (← shared.judge lifetime now rest)
    else
      shared.close entry.conn
      shared.judge lifetime now rest

def sweepKey (shared : Shared m α κ) (now : Nat) (key : α) : m Nat := do
  let lifetime ← shared.look (·.lifetime)
  let drained ← shared.update (·.takeAll key)
  let kept ← shared.judge lifetime now drained
  shared.update fun pool => ((), pool.restore key kept)
  return drained.length - kept.length

def sweep (shared : Shared m α κ) : m Nat := do
  let now ← shared.clock
  let keys ← shared.look (·.queues.keys)
  keys.foldlM (fun gone key => return gone + (← shared.sweepKey now key)) 0

end Shared

end ShardedCache.Pool
