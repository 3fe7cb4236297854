import ShardedCache.Dictionary
import ShardedCache.Fault

/-! Connections that nobody uses, in one queue per key, oldest hand-back first.  Whether a connection may be used
is not for the pool to know: every operation is given `valid`, and says which connections it closed. -/

namespace ShardedCache

/-- A connection that nobody uses, and when it was handed back. -/
structure Idle (κ : Type) where
  conn : κ
  since : Nat
deriving Repr

structure Pool (α κ : Type) where
  lifetime : Nat
  queues : Dictionary α (List (Idle κ)) := .empty
  isClosed : Bool := false

namespace Pool

variable {α κ ν : Type} [DecidableEq α]

/-- What an operation leaves: its answer, the pool, and the connections it closed, in order. -/
structure Outcome (α κ β : Type) where
  answer : β
  pool : Pool α κ
  closed : List κ := []

def queue (pool : Pool α κ) (key : α) : List (Idle κ) :=
  (pool.queues.find? key).getD []

def idleCount (pool : Pool α κ) (key : α) : Nat :=
  (pool.queue key).length

def everyIdle (pool : Pool α κ) : List (Idle κ) :=
  pool.queues.entries.flatMap (·.2)

def totalIdle (pool : Pool α κ) : Nat :=
  pool.everyIdle.length

/-- The number of keys that have a queue, an empty one included. -/
def keyCount (pool : Pool α κ) : Nat :=
  pool.queues.size

/-- Puts `idle` in place of the queue that `key` has; a key without one gets none. -/
def replace (pool : Pool α κ) (key : α) (idle : List (Idle κ)) : Pool α κ :=
  match pool.queues.find? key with
  | none => pool
  | some _ => { pool with queues := pool.queues.insert key idle }

def pop (pool : Pool α κ) (key : α) : Option (Idle κ) × Pool α κ :=
  ((pool.queue key).head?, pool.replace key (pool.queue key).tail)

/-- Takes the first usable connection of the queue.  Those before it are closed. -/
def takeIdle (valid : κ → Bool) (key : α) (pool : Pool α κ) : Outcome α κ (Option κ) :=
  let idle := pool.queue key
  let dead := (idle.takeWhile fun entry => !valid entry.conn).map (·.conn)
  match idle.dropWhile fun entry => !valid entry.conn with
  | [] => { answer := none, pool := pool.replace key [], closed := dead }
  | entry :: rest => { answer := some entry.conn, pool := pool.replace key rest, closed := dead }

/-- A connection for `key`: the first usable idle one, or else a new one.  Only a failure to create
one is reported. -/
def borrow (valid : κ → Bool) (create : ν → Except IoError κ × ν) (key : α) (pool : Pool α κ)
    (world : ν) : Outcome α κ (Except IoError κ) × ν :=
  let taken := takeIdle valid key pool
  match taken.answer with
  | some conn => ({ taken with answer := .ok conn }, world)
  | none =>
    let (created, world) := create world
    ({ taken with answer := created }, world)

def push (pool : Pool α κ) (key : α) (entry : Idle κ) : Pool α κ :=
  { pool with queues := pool.queues.insert key (pool.queue key ++ [entry]) }

/-- Hands a connection back.  It is closed if it is of no use, or if the pool is closed. -/
def giveBack (valid : κ → Bool) (now : Nat) (key : α) (conn : κ) (pool : Pool α κ) :
    Outcome α κ Unit :=
  if pool.isClosed || !valid conn then { answer := (), pool := pool, closed := [conn] }
  else { answer := (), pool := pool.push key ⟨conn, now⟩ }

/-- Takes everything out of the queue of `key`, which stays. -/
def takeAll (pool : Pool α κ) (key : α) : List (Idle κ) × Pool α κ :=
  (pool.queue key, pool.replace key [])

/-- A sweep keeps what is valid and has not been idle for the lifetime. -/
def survives (valid : κ → Bool) (lifetime now : Nat) (entry : Idle κ) : Bool :=
  now - entry.since < lifetime && valid entry.conn

/-- Puts the survivors of a sweep back at the end of the queue.  A queue that stays empty goes. -/
def restore (pool : Pool α κ) (key : α) (survivors : List (Idle κ)) : Pool α κ :=
  if survivors = [] then
    if pool.queue key = [] then { pool with queues := pool.queues.erase key } else pool
  else { pool with queues := pool.queues.insert key (pool.queue key ++ survivors) }

def sweepKey (valid : κ → Bool) (now : Nat) (pool : Pool α κ) (key : α) : Outcome α κ Nat :=
  let (drained, emptied) := pool.takeAll key
  let (kept, gone) := drained.partition (survives valid pool.lifetime now)
  { answer := gone.length, pool := emptied.restore key kept, closed := gone.map (·.conn) }

/-- Closes what is of no use or has been idle too long, key by key; answers how many that were. -/
def sweep (valid : κ → Bool) (now : Nat) (pool : Pool α κ) : Outcome α κ Nat :=
  pool.queues.keys.foldl
    (fun sofar key =>
      let swept := sofar.pool.sweepKey valid now key
      { answer := sofar.answer + swept.answer
        pool := swept.pool
        closed := sofar.closed ++ swept.closed })
    { answer := 0, pool := pool }

def discard (pool : Pool α κ) (key : α) : Outcome α κ Unit :=
  { answer := ()
    pool := { pool with queues := pool.queues.erase key }
    closed := (pool.queue key).map (·.conn) }

def close (pool : Pool α κ) : Outcome α κ Unit :=
  pool.queues.keys.foldl
    (fun sofar key =>
      let left := sofar.pool.discard key
      { left with closed := sofar.closed ++ left.closed })
    { answer := (), pool := { pool with isClosed := true } }

end Pool

end ShardedCache
