import ShardedCache.Fault

namespace ShardedCache

structure Item where
  value : Octets
  flags : UInt32
deriving DecidableEq, Repr

namespace Item

/-- What stands before the value: the tag, and the flags unless they are zero. -/
def lead (flags : UInt32) : Octets :=
  if flags = 0 then [0] else 1 :: Octets.bigEndian 4 flags.toNat

/-- A stored form that has been begun: the octets written so far, and how many there is room for in all. -/
structure Draft where
  octets : Octets
  room : Nat
deriving DecidableEq, Repr

/-- A stored form up to its value, with room for a value of so many octets. -/
def draft (flags : UInt32) (length : Nat) : Draft where
  octets := lead flags
  room := (lead flags).length + length

def pack (item : Item) : Octets :=
  lead item.flags ++ item.value

def unpack : Octets → Except Fault Item
  | [] => .error (.value .empty)
  | 0 :: value => .ok { value, flags := 0 }
  | tag :: rest =>
    if tag = 1 ∧ 4 ≤ rest.length then
      let (flags, value) := Octets.number 4 rest
      .ok { value, flags := UInt32.ofNat flags }
    else .error (.value (.unknownTag tag (rest.length + 1)))

theorem unpack_pack (item : Item) : unpack item.pack = .ok item := by
  obtain ⟨value, flags⟩ := item
  by_cases h : flags = 0
  · subst h
    rfl
  · have hlt := flags.toNat_lt
    simp [pack, lead, h, unpack, Octets.number_append, Nat.mod_eq_of_lt hlt]

end Item

end ShardedCache
