import ShardedCache.Dictionary
import ShardedCache.Octets

/-! Keys with what is stored under them and until when, in whole seconds of the clock.  An entry past its deadline stays
until a lookup notices it; what a lookup gives never depends on that. -/

namespace ShardedCache

structure Entry where
  blob : Octets
  /-- The second from which on the entry is gone, none if it stays. -/
  deadline : Option Nat := none
deriving DecidableEq, Repr

def Entry.isExpired (entry : Entry) (now : Nat) : Bool :=
  entry.deadline.any (· ≤ now)

structure Store where
  entries : Dictionary Octets Entry := .empty

namespace Store

/-- The longest expiry that counts from now, in seconds: thirty days. -/
def relativeLimit : UInt32 := 2592000

/-- The deadline that an expiry asks for: none for zero, from now for a short one, the second
itself for a long one. -/
def deadlineOf (expiry : UInt32) (now : Nat) : Option Nat :=
  if expiry = 0 then none
  else if expiry ≤ relativeLimit then some (now + expiry.toNat)
  else some expiry.toNat

/-- What is there under `key`, expired or not. -/
def find? (store : Store) (key : Octets) : Option Entry :=
  store.entries.find? key

def size (store : Store) : Nat :=
  store.entries.size

def isEmpty (store : Store) : Bool :=
  store.entries.entries.isEmpty

def set (store : Store) (key blob : Octets) (expiry : UInt32) (now : Nat) : Store :=
  ⟨store.entries.insert key { blob, deadline := deadlineOf expiry now }⟩

/-- What a lookup at time `now` finds, and whether it noticed an expired entry. -/
inductive Finding where
  | absent
  | live (blob : Octets)
  | expired
deriving DecidableEq, Repr

/-- Looks without changing anything. -/
def peek (store : Store) (key : Octets) (now : Nat) : Finding :=
  match store.find? key with
  | none => .absent
  | some entry => if entry.isExpired now then .expired else .live entry.blob

/-- Removes the entry under `key` if it has expired at time `now`. -/
def evict (store : Store) (key : Octets) (now : Nat) : Store :=
  if (store.find? key).any (·.isExpired now) then ⟨store.entries.erase key⟩ else store

/-- Looks `key` up.  An expired entry is not found, and is removed. -/
def get (store : Store) (key : Octets) (now : Nat) : Option Octets × Store :=
  match store.peek key now with
  | .absent => (none, store)
  | .live blob => (some blob, store)
  | .expired => (none, store.evict key now)

def clear (_ : Store) : Store := {}

end Store

end ShardedCache
