
namespace ShardedCache

structure Roster where
  limit : Nat
  active : Nat := 0
  next : UInt64 := 0
  /-- The numbers of the clients whose sockets can be shut down. -/
  clients : List UInt64 := []
deriving DecidableEq, Repr

/-- Where the start of a session can fail, in this order. -/
inductive Setback where
  | blocking
  | duplicate
  | session
  | timeLimits
  | thread
deriving DecidableEq, Repr

inductive Admission where
  | turnedAway
  | failed
  | started (client : UInt64)
deriving DecidableEq, Repr

namespace Roster

def enter (roster : Roster) : UInt64 × Roster :=
  (roster.next,
    { roster with
      active := roster.active + 1
      next := roster.next + 1
      clients := roster.next :: roster.clients.filter (· ≠ roster.next) })

def leave (roster : Roster) (client : UInt64) : Roster :=
  { roster with
    active := roster.active - 1
    clients := roster.clients.filter (· ≠ client) }

/-- A client connects.  It is turned away if there is no room.  If starting its session fails, it is
off the roster again, though its number is used up when the failure comes last. -/
def arrive (roster : Roster) (setback : Option Setback) : Admission × Roster :=
  if roster.limit ≤ roster.active then (.turnedAway, roster)
  else
    match setback with
    | none =>
      let (client, roster) := roster.enter
      (.started client, roster)
    | some .thread =>
      let (client, roster) := roster.enter
      (.failed, roster.leave client)
    | some _ => (.failed, roster)

end Roster

end ShardedCache
