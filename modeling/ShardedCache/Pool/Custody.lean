import ShardedCache.Pool

/-! A pool together with all the connections that were ever created for it: idle ones lie in the pool, others are
held by a borrower or closed.  Connections are numbered as they are created. -/

namespace ShardedCache

structure Custody (α : Type) where
  pool : Pool α Nat
  /-- The number of connections created so far, and the next one's. -/
  created : Nat := 0
  /-- The connections on loan, each with the key it was borrowed for. -/
  held : List (Nat × α) := []
  spoiled : List Nat := []
  closed : List Nat := []
  /-- Why no connection can be created at present, if so. -/
  refusal : Option IoError := none

namespace Custody

variable {α : Type} [DecidableEq α]

def valid (custody : Custody α) (conn : Nat) : Bool :=
  !custody.spoiled.contains conn

def create (refusal : Option IoError) (created : Nat) : Except IoError Nat × Nat :=
  match refusal with
  | some error => (.error error, created)
  | none => (.ok created, created + 1)

def absorb {β : Type} (custody : Custody α) (outcome : Pool.Outcome α Nat β) : Custody α :=
  { custody with pool := outcome.pool, closed := custody.closed ++ outcome.closed }

def borrow (custody : Custody α) (key : α) : Except IoError Nat × Custody α :=
  let (outcome, created) :=
    Pool.borrow custody.valid (create custody.refusal) key custody.pool custody.created
  let after := { custody.absorb outcome with created := created }
  match outcome.answer with
  | .error error => (.error error, after)
  | .ok conn => (.ok conn, { after with held := (conn, key) :: after.held })

/-- Hands a connection back that is on loan, under the key given or else the one it was borrowed
for.  None if it is not on loan. -/
def giveBack (custody : Custody α) (now : Nat) (conn : Nat) (key : Option α) : Option (Custody α) :=
  (custody.held.lookup conn).map fun own =>
    let outcome := Pool.giveBack custody.valid now (key.getD own) conn custody.pool
    { custody.absorb outcome with held := custody.held.filter (·.1 ≠ conn) }

/-- A connection dies, or will once it is created. -/
def kill (custody : Custody α) (conn : Nat) : Custody α :=
  { custody with spoiled := conn :: custody.spoiled }

/-- A borrower marks its connection as spoiled.  None if it is not on loan. -/
def invalidate (custody : Custody α) (conn : Nat) : Option (Custody α) :=
  (custody.held.lookup conn).map fun _ => custody.kill conn

def sweep (custody : Custody α) (now : Nat) : Nat × Custody α :=
  let outcome := custody.pool.sweep custody.valid now
  (outcome.answer, custody.absorb outcome)

def close (custody : Custody α) : Custody α :=
  custody.absorb custody.pool.close

end Custody

end ShardedCache
