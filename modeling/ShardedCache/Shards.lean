import ShardedCache.Address.Text
import ShardedCache.Checksum

namespace ShardedCache

structure Shards where
  backends : List Address
  nonempty : backends ≠ []

namespace Shards

def ofList (backends : List Address) : Except Fault Shards :=
  if h : backends = [] then .error (.settings .noBackends) else .ok ⟨backends, h⟩

/-- Reads the addresses in order; the first bad one is reported. -/
def ofTexts (texts : List String) : Except Fault Shards := do
  let backends ← texts.mapM fun text =>
    (Address.ofText text).mapError fun reason => .settings (.badBackend text reason)
  ofList backends

theorem slot_lt (shards : Shards) (key : Octets) :
    (Checksum.crc32 key).toNat % shards.backends.length < shards.backends.length :=
  Nat.mod_lt _ (List.length_pos_iff.mpr shards.nonempty)

/-- The backend that owns the key. -/
def owner (shards : Shards) (key : Octets) : Address :=
  shards.backends.get ⟨_, shards.slot_lt key⟩

end Shards

end ShardedCache
