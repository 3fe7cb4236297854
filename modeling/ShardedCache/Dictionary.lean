
namespace ShardedCache

variable {α β : Type}

/-- A finite map from `α` to `β`. -/
structure Dictionary (α β : Type) where
  entries : List (α × β)
  distinct : entries.Pairwise (·.1 ≠ ·.1)

namespace Dictionary

def empty : Dictionary α β :=
  ⟨[], .nil⟩

variable [DecidableEq α]

def keys (d : Dictionary α β) : List α :=
  d.entries.map (·.1)

def size (d : Dictionary α β) : Nat :=
  d.entries.length

def find? (d : Dictionary α β) (key : α) : Option β :=
  d.entries.lookup key

def erase (d : Dictionary α β) (key : α) : Dictionary α β where
  entries := d.entries.filter (·.1 ≠ key)
  distinct := d.distinct.filter _

/-- The map with `key` at `value`, whatever was there before. -/
def insert (d : Dictionary α β) (key : α) (value : β) : Dictionary α β where
  entries := (key, value) :: (d.erase key).entries
  distinct := by
    refine List.pairwise_cons.mpr ⟨fun entry h => ?_, (d.erase key).distinct⟩
    have hne : entry.1 ≠ key := by simpa using (List.mem_filter.mp h).2
    exact hne.symm

@[simp] theorem find?_empty (key : α) : (empty : Dictionary α β).find? key = none := rfl

theorem lookup_filter_ne (entries : List (α × β)) (key other : α) :
    (entries.filter (·.1 ≠ key)).lookup other = if other = key then none else entries.lookup other := by
  induction entries with
  | nil => simp
  | cons entry entries ih =>
    obtain ⟨k, b⟩ := entry
    by_cases hk : k = key
    · subst hk
      by_cases ho : other = k
      · simpa [ho] using ih
      · have hne : (other == k) = false := by simpa using ho
        simpa [ho, List.lookup_cons, hne] using ih
    · by_cases he : other = k
      · simp [he, hk]
      · have hne : (other == k) = false := by simpa using he
        simpa [hk, List.lookup_cons, hne] using ih

@[simp] theorem find?_erase (d : Dictionary α β) (key other : α) :
    (d.erase key).find? other = if other = key then none else d.find? other :=
  lookup_filter_ne d.entries key other

@[simp] theorem find?_insert (d : Dictionary α β) (key other : α) (value : β) :
    (d.insert key value).find? other = if other = key then some value else d.find? other := by
  by_cases h : other = key
  · simp [insert, find?, h]
  · have hne : (other == key) = false := by simpa using h
    simp only [insert, find?, List.lookup_cons, hne, h, if_false]
    exact (find?_erase d key other).trans (by simp [h, find?])

theorem insert_insert (d : Dictionary α β) (key : α) (first last : β) :
    (d.insert key first).insert key last = d.insert key last := by
  have herase : ((d.insert key first).erase key).entries = (d.erase key).entries := by
    simp only [insert, erase, List.filter_cons, ne_eq, not_true_eq_false, decide_false,
      Bool.false_eq_true, if_false, List.filter_filter, Bool.and_self]
  have hentries : ((d.insert key first).insert key last).entries = (d.insert key last).entries :=
    congrArg ((key, last) :: ·) herase
  cases hleft : (d.insert key first).insert key last
  cases hright : d.insert key last
  rw [hleft, hright] at hentries
  subst hentries
  rfl

theorem find?_of_not_mem_keys {d : Dictionary α β} {key : α} (h : key ∉ d.keys) :
    d.find? key = none := by
  rw [find?, List.lookup_eq_none_iff]
  intro entry hentry
  have hne : key ≠ entry.1 := by
    rintro rfl
    exact h (List.mem_map.mpr ⟨entry, hentry, rfl⟩)
  simpa using hne

theorem find?_of_mem_entries {d : Dictionary α β} {key : α} {value : β} (h : (key, value) ∈ d.entries) :
    d.find? key = some value := by
  obtain ⟨before, rest, hentries⟩ := List.append_of_mem h
  have hdistinct := d.distinct
  rw [hentries] at hdistinct
  apply List.lookup_eq_some_iff.mpr
  refine ⟨before, rest, hentries, ?_⟩
  intro entry hentry
  have hne : entry.1 ≠ key := (List.pairwise_append.mp hdistinct).2.2 entry hentry _ List.mem_cons_self
  simpa using hne.symm

theorem mem_keys_iff {d : Dictionary α β} {key : α} :
    key ∈ d.keys ↔ ∃ value, d.find? key = some value := by
  constructor
  · intro h
    obtain ⟨entry, hentry, rfl⟩ := List.mem_map.mp h
    exact ⟨entry.2, find?_of_mem_entries hentry⟩
  · rintro ⟨value, hvalue⟩
    apply Decidable.byContradiction
    intro hkey
    rw [find?_of_not_mem_keys hkey] at hvalue
    cases hvalue

end Dictionary

end ShardedCache
