import ShardedCache.Item
import ShardedCache.Store

namespace ShardedCache

theorem Item.pack_injective {a b : Item} (h : a.pack = b.pack) : a = b := by
  have hunpack := unpack_pack a
  rw [h, unpack_pack] at hunpack
  exact (Except.ok.inj hunpack).symm

theorem Item.family_of_unpack {blob : Octets} {fault : Fault} (h : unpack blob = .error fault) :
    fault.family = .value := by
  rw [unpack.eq_def] at h
  split at h
  · obtain rfl := Except.error.inj h
    rfl
  · cases h
  · split at h
    · cases h
    · obtain rfl := Except.error.inj h
      rfl

theorem passed_mono {deadline : Option Nat} {now later : Nat} (h : deadline.any (· ≤ now) = true)
    (hle : now ≤ later) : deadline.any (· ≤ later) = true := by
  cases deadline with
  | none => cases h
  | some second =>
    have hpast : second ≤ now := by simpa using h
    have hlater : second ≤ later := Nat.le_trans hpast hle
    simpa using hlater

theorem Entry.isExpired_mono {entry : Entry} {now later : Nat} (h : entry.isExpired now = true)
    (hle : now ≤ later) : entry.isExpired later = true :=
  passed_mono h hle

namespace Store

@[simp] theorem find?_empty (key : Octets) : ({} : Store).find? key = none := rfl

@[simp] theorem find?_set (store : Store) (key blob : Octets) (expiry : UInt32) (now : Nat)
    (other : Octets) :
    (store.set key blob expiry now).find? other =
      if other = key then some { blob, deadline := deadlineOf expiry now } else store.find? other :=
  Dictionary.find?_insert ..

theorem find?_evict (store : Store) (key : Octets) (now : Nat) (other : Octets) :
    (store.evict key now).find? other =
      if other = key ∧ (store.find? key).any (·.isExpired now) then none else store.find? other := by
  rw [evict]
  by_cases h : (store.find? key).any (·.isExpired now) = true
  · simp only [h, if_true, and_true]
    exact Dictionary.find?_erase ..
  · simp only [h, if_false, and_false, Bool.false_eq_true]

theorem fst_get (store : Store) (key : Octets) (now : Nat) :
    (store.get key now).1 =
      (store.find? key).bind fun entry => if entry.isExpired now then none else some entry.blob := by
  rw [get, peek]
  cases store.find? key with
  | none => rfl
  | some entry =>
    by_cases h : entry.isExpired now = true
    · simp [h]
    · simp [h]

theorem snd_get (store : Store) (key : Octets) (now : Nat) :
    (store.get key now).2 = store.evict key now := by
  rw [get, peek]
  cases hentry : store.find? key with
  | none =>
    rw [evict, hentry]
    rfl
  | some entry =>
    by_cases hexpired : entry.isExpired now = true
    · simp only [hexpired, if_true]
    · simp only [evict, hentry, hexpired, Option.any_some, if_false, Bool.false_eq_true]

theorem find?_get (store : Store) (key : Octets) (now : Nat) (other : Octets) :
    (store.get key now).2.find? other =
      if other = key ∧ (store.find? key).any (·.isExpired now) then none else store.find? other := by
  rw [snd_get, find?_evict]

/-- Every blob is the stored form of an item which, with its key and the extras of a request that stores it,
takes up at most `bound` octets. -/
def Stocked (bound : Nat) (store : Store) : Prop :=
  ∀ key entry, store.find? key = some entry →
    ∃ item : Item, entry.blob = item.pack ∧ 8 + key.length + item.value.length ≤ bound

theorem stocked_empty (bound : Nat) : Stocked bound {} := by
  intro key entry h
  simp at h

theorem Stocked.set {bound : Nat} {store : Store} (h : store.Stocked bound) {key : Octets} {item : Item}
    (hitem : 8 + key.length + item.value.length ≤ bound) (expiry : UInt32) (now : Nat) :
    (store.set key item.pack expiry now).Stocked bound := by
  intro other entry hentry
  rw [find?_set] at hentry
  split at hentry
  · rename_i heq
    subst heq
    obtain rfl := Option.some.inj hentry
    exact ⟨item, rfl, hitem⟩
  · exact h other entry hentry

theorem Stocked.get {bound : Nat} {store : Store} (h : store.Stocked bound) (key : Octets) (now : Nat) :
    (store.get key now).2.Stocked bound := by
  intro other entry hentry
  rw [find?_get] at hentry
  split at hentry
  · cases hentry
  · exact h other entry hentry

theorem Stocked.exists_item {bound : Nat} {store : Store} (h : store.Stocked bound) {key blob : Octets}
    {now : Nat} (hget : (store.get key now).1 = some blob) :
    ∃ item : Item, blob = item.pack ∧ 8 + key.length + item.value.length ≤ bound := by
  rw [fst_get] at hget
  obtain ⟨entry, hentry, hblob⟩ := Option.bind_eq_some_iff.mp hget
  split at hblob
  · cases hblob
  · obtain ⟨item, hpack, hlen⟩ := h key entry hentry
    obtain rfl := Option.some.inj hblob
    exact ⟨item, hpack, hlen⟩

end Store

end ShardedCache
