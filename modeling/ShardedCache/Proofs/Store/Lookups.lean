import ShardedCache.Proofs.Store.Entries

namespace ShardedCache

namespace Store

/-- Whether what lies under a key is gone by `now`. -/
def Gone (store : Store) (key : Octets) (now : Nat) : Prop :=
  ∃ entry, store.find? key = some entry ∧ entry.isExpired now = true

theorem any_isExpired_iff {store : Store} {key : Octets} {now : Nat} :
    (store.find? key).any (·.isExpired now) = true ↔ store.Gone key now := by
  rw [Gone]
  cases store.find? key with
  | none => simp
  | some entry => simp

theorem find?_evict_of_gone {store : Store} {key : Octets} {now : Nat} (h : store.Gone key now) :
    (store.evict key now).find? key = none := by
  rw [find?_evict, if_pos ⟨rfl, any_isExpired_iff.mpr h⟩]

theorem find?_evict_of_ne {store : Store} {key other : Octets} {now : Nat} (hne : other ≠ key) :
    (store.evict key now).find? other = store.find? other := by
  rw [find?_evict, if_neg fun hboth => hne hboth.1]

theorem find?_evict_of_not_gone {store : Store} {key : Octets} {now : Nat} (h : ¬ store.Gone key now)
    (other : Octets) : (store.evict key now).find? other = store.find? other := by
  rw [find?_evict, if_neg fun hboth => h (any_isExpired_iff.mp hboth.2)]

/-- The second store is the first one without some entries that are gone by `now`. -/
def Thinned (full thin : Store) (now : Nat) : Prop :=
  ∀ key, thin.find? key = full.find? key ∨ thin.find? key = none ∧ full.Gone key now

namespace Thinned

variable {full thin : Store} {now later : Nat}

theorem refl (store : Store) (now : Nat) : store.Thinned store now :=
  fun _ => .inl rfl

theorem mono (h : full.Thinned thin now) (hle : now ≤ later) : full.Thinned thin later := by
  intro key
  rcases h key with hsame | ⟨hnone, entry, hentry, hexpired⟩
  · exact .inl hsame
  · exact .inr ⟨hnone, entry, hentry, Entry.isExpired_mono hexpired hle⟩

theorem set (h : full.Thinned thin now) (key blob : Octets) (expiry : UInt32) (made : Nat) :
    (full.set key blob expiry made).Thinned (thin.set key blob expiry made) now := by
  intro other
  rw [Gone, find?_set, find?_set]
  by_cases hkey : other = key
  · rw [if_pos hkey, if_pos hkey]
    exact .inl rfl
  · rw [if_neg hkey, if_neg hkey]
    exact h other

theorem evict (h : full.Thinned thin now) (key : Octets) {sampled : Nat} (hle : sampled ≤ now) :
    full.Thinned (thin.evict key sampled) now := by
  intro other
  by_cases hkey : other = key
  · subst hkey
    by_cases hgone : thin.Gone other sampled
    · obtain ⟨entry, hentry, hexpired⟩ := hgone
      have hfull : full.find? other = some entry := by
        rcases h other with hsame | ⟨hnone, -⟩
        · rw [← hsame, hentry]
        · rw [hnone] at hentry
          cases hentry
      refine .inr ⟨find?_evict_of_gone ⟨entry, hentry, hexpired⟩, entry, hfull, ?_⟩
      exact Entry.isExpired_mono hexpired hle
    · rw [find?_evict_of_not_gone hgone]
      exact h other
  · rw [find?_evict_of_ne hkey]
    exact h other

theorem evict_both (h : full.Thinned thin now) (key : Octets) :
    (full.evict key now).Thinned (thin.evict key now) now := by
  intro other
  by_cases hkey : other = key
  · subst hkey
    left
    rcases h other with hsame | ⟨hnone, hgone⟩
    · rw [find?_evict, find?_evict, hsame]
    · have hthin : (thin.evict other now).find? other = none := by
        rw [find?_evict, hnone, ite_self]
      rw [hthin, find?_evict_of_gone hgone]
  · rw [Gone, find?_evict_of_ne hkey, find?_evict_of_ne hkey]
    exact h other

theorem fst_get (h : full.Thinned thin now) (key : Octets) :
    (thin.get key now).1 = (full.get key now).1 := by
  rw [Store.fst_get, Store.fst_get]
  rcases h key with hsame | ⟨hnone, entry, hentry, hexpired⟩
  · rw [hsame]
  · rw [hnone, hentry, Option.bind_none, Option.bind_some, if_pos hexpired]

end Thinned

inductive Access where
  | set (key blob : Octets) (expiry : UInt32)
  | get (key : Octets)
  | clear
deriving DecidableEq

def Access.isLookup : Access → Bool
  | .get _ => true
  | .set .. | .clear => false

/-- An access at a second of the clock.  The label tells it from others that ask for the same. -/
structure Visit (ν : Type) where
  label : ν
  now : Nat
  access : Access

variable {ν : Type}

def visit (store : Store) (v : Visit ν) : Store :=
  match v.access with
  | .set key blob expiry => store.set key blob expiry v.now
  | .get key => (store.get key v.now).2
  | .clear => store.clear

def visited (visits : List (Visit ν)) (store : Store) : Store :=
  visits.foldl visit store

def Visit.answer? (v : Visit ν) (store : Store) : Option (ν × Option Octets) :=
  match v.access with
  | .get key => some (v.label, (store.get key v.now).1)
  | .set .. | .clear => none

def answers : List (Visit ν) → Store → List (ν × Option Octets)
  | [], _ => []
  | v :: visits, store => (v.answer? store).toList ++ answers visits (store.visit v)

section Answers

variable {full thin : Store} {now : Nat}

theorem Thinned.visit (v : Visit ν) (h : full.Thinned thin v.now) :
    (full.visit v).Thinned (thin.visit v) v.now := by
  cases haccess : v.access with
  | set key blob expiry =>
    simp only [Store.visit, haccess]
    exact h.set key blob expiry v.now
  | get key =>
    simp only [Store.visit, haccess, snd_get]
    exact h.evict_both key
  | clear =>
    simp only [Store.visit, haccess]
    exact .refl _ _

theorem Thinned.visit_of_isLookup {v : Visit ν} (h : full.Thinned thin v.now)
    (hlookup : v.access.isLookup = true) : full.Thinned (thin.visit v) v.now := by
  cases haccess : v.access with
  | get key =>
    simp only [Store.visit, haccess, snd_get]
    exact h.evict key (Nat.le_refl v.now)
  | set key blob expiry =>
    rw [haccess] at hlookup
    cases hlookup
  | clear =>
    rw [haccess] at hlookup
    cases hlookup

theorem Thinned.answer? (v : Visit ν) (h : full.Thinned thin v.now) :
    v.answer? thin = v.answer? full := by
  cases haccess : v.access with
  | get key => simp only [Visit.answer?, haccess, h.fst_get]
  | set key blob expiry => simp only [Visit.answer?, haccess]
  | clear => simp only [Visit.answer?, haccess]

theorem label_of_answer? {v : Visit ν} {store : Store} {given : ν × Option Octets}
    (h : given ∈ (v.answer? store).toList) : given.1 = v.label := by
  cases haccess : v.access with
  | get key =>
    simp only [Visit.answer?, haccess, Option.toList_some, List.mem_singleton] at h
    rw [h]
  | set key blob expiry => simp [Visit.answer?, haccess] at h
  | clear => simp [Visit.answer?, haccess] at h

/-- Lookups may be left out: the other ones give what they gave. -/
theorem answers_filter {keep : ν → Bool} {visits : List (Visit ν)} (h : full.Thinned thin now)
    (htimes : (now :: visits.map (·.now)).Pairwise (· ≤ ·))
    (hkeep : ∀ v ∈ visits, keep v.label = false → v.access.isLookup = true) :
    answers (visits.filter (keep ·.label)) full = (answers visits thin).filter (keep ·.1) := by
  -- The fuller store is that of the history in which fewer lookups remove anything.
  induction visits generalizing full thin now with
  | nil => rfl
  | cons v visits ih =>
    obtain ⟨hnow, hlater⟩ := List.pairwise_cons.mp htimes
    have hv : full.Thinned thin v.now := h.mono (hnow v.now List.mem_cons_self)
    have hothers : ∀ other ∈ visits, keep other.label = false → other.access.isLookup = true :=
      fun other hother => hkeep other (List.mem_cons_of_mem v hother)
    rw [answers, List.filter_append]
    cases hlabel : keep v.label with
    | true =>
      have hown : (v.answer? thin).toList.filter (keep ·.1) = (v.answer? full).toList := by
        rw [hv.answer? v]
        apply List.filter_eq_self.mpr
        intro given hgiven
        rw [label_of_answer? hgiven]
        exact hlabel
      have hkept : (v :: visits).filter (keep ·.label) = v :: visits.filter (keep ·.label) :=
        List.filter_cons_of_pos hlabel
      rw [hkept, answers, hown, ih (hv.visit v) hlater hothers]
    | false =>
      have hown : (v.answer? thin).toList.filter (keep ·.1) = [] := by
        apply List.filter_eq_nil_iff.mpr
        intro given hgiven
        rw [label_of_answer? hgiven]
        exact Bool.eq_false_iff.mp hlabel
      have hleft : (v :: visits).filter (keep ·.label) = visits.filter (keep ·.label) :=
        List.filter_cons_of_neg (Bool.eq_false_iff.mp hlabel)
      have hthinner := hv.visit_of_isLookup (hkeep v List.mem_cons_self hlabel)
      rw [hleft, hown, List.nil_append, ih hthinner hlater hothers]

end Answers

def Visit.Stores (v : Visit ν) (key : Octets) (entry : Entry) : Prop :=
  ∃ blob expiry, v.access = .set key blob expiry ∧
    entry = { blob, deadline := deadlineOf expiry v.now }

/-- The entry under the key does not outlast the access: it is overwritten, looked up at or past its deadline, or
cleared with all others. -/
def Visit.Ends (v : Visit ν) (key : Octets) (entry : Entry) : Prop :=
  match v.access with
  | .set other _ _ => other = key
  | .get other => other = key ∧ entry.isExpired v.now = true
  | .clear => True

/-- Some access of the history stored the entry, and none after it ended that. -/
def Stands (visits : List (Visit ν)) (key : Octets) (entry : Entry) : Prop :=
  ∃ before v later, visits = before ++ v :: later ∧ v.Stores key entry ∧
    ∀ next ∈ later, ¬ next.Ends key entry

section Contents

variable {key : Octets} {entry : Entry}

theorem find?_visit (store : Store) (v : Visit ν) :
    (store.visit v).find? key = some entry ↔
      v.Stores key entry ∨ store.find? key = some entry ∧ ¬ v.Ends key entry := by
  cases haccess : v.access with
  | set other blob expiry =>
    simp only [visit, Visit.Stores, Visit.Ends, haccess, find?_set]
    by_cases hkey : key = other
    · subst hkey
      rw [if_pos rfl]
      constructor
      · intro hstored
        exact .inl ⟨blob, expiry, rfl, (Option.some.inj hstored).symm⟩
      · rintro (⟨_, _, hsame, rfl⟩ | ⟨-, hkept⟩)
        · obtain ⟨-, rfl, rfl⟩ := Access.set.inj hsame
          rfl
        · exact absurd rfl hkept
    · rw [if_neg hkey]
      constructor
      · intro hold
        exact .inr ⟨hold, fun hends => hkey hends.symm⟩
      · rintro (⟨_, _, hsame, -⟩ | ⟨hold, -⟩)
        · exact absurd (Access.set.inj hsame).1.symm hkey
        · exact hold
  | get other =>
    have hlookup : ¬ v.Stores key entry := by
      rintro ⟨_, _, hset, -⟩
      rw [haccess] at hset
      cases hset
    have hvisit : store.visit v = store.evict other v.now := by
      simp only [visit, haccess, snd_get]
    simp only [hvisit, or_iff_right hlookup, Visit.Ends, haccess]
    by_cases hkey : key = other
    · subst hkey
      by_cases hgone : store.Gone key v.now
      · rw [find?_evict_of_gone hgone]
        obtain ⟨found, hfound, hexpired⟩ := hgone
        constructor
        · intro h
          cases h
        · rintro ⟨hentry, hkept⟩
          rw [hfound] at hentry
          obtain rfl := Option.some.inj hentry
          exact absurd ⟨rfl, hexpired⟩ hkept
      · rw [find?_evict_of_not_gone hgone]
        constructor
        · intro hentry
          exact ⟨hentry, fun hends => hgone ⟨entry, hentry, hends.2⟩⟩
        · exact And.left
    · rw [find?_evict_of_ne hkey]
      constructor
      · intro hentry
        exact ⟨hentry, fun hends => hkey hends.1.symm⟩
      · exact And.left
  | clear =>
    simp [visit, Visit.Stores, Visit.Ends, haccess, clear]

theorem stands_cons {v : Visit ν} {visits : List (Visit ν)} :
    Stands (v :: visits) key entry ↔
      (v.Stores key entry ∧ ∀ next ∈ visits, ¬ next.Ends key entry) ∨ Stands visits key entry := by
  constructor
  · rintro ⟨before, stored, later, hsplit, hstores, hlater⟩
    cases before with
    | nil =>
      obtain ⟨rfl, rfl⟩ := List.cons.inj hsplit
      exact .inl ⟨hstores, hlater⟩
    | cons first before =>
      obtain ⟨-, hrest⟩ := List.cons.inj hsplit
      exact .inr ⟨before, stored, later, hrest, hstores, hlater⟩
  · rintro (⟨hstores, hlater⟩ | ⟨before, stored, later, hsplit, hstores, hlater⟩)
    · exact ⟨[], v, visits, rfl, hstores, hlater⟩
    · exact ⟨v :: before, stored, later, congrArg (v :: ·) hsplit, hstores, hlater⟩

/-- What lies in the store after a history: what the history left there, and what lay there before and was not
ended. -/
theorem find?_visited (visits : List (Visit ν)) (store : Store) :
    (visited visits store).find? key = some entry ↔
      Stands visits key entry ∨ store.find? key = some entry ∧ ∀ v ∈ visits, ¬ v.Ends key entry := by
  induction visits generalizing store with
  | nil =>
    have hnever : ¬ Stands ([] : List (Visit ν)) key entry := by
      rintro ⟨before, v, later, hsplit, -⟩
      simp at hsplit
    simp [visited, hnever]
  | cons v visits ih =>
    calc (visited (v :: visits) store).find? key = some entry
      _ ↔ (visited visits (store.visit v)).find? key = some entry := Iff.rfl
      _ ↔ _ := ih (store.visit v)
      _ ↔ _ := by
        rw [find?_visit, stands_cons, List.forall_mem_cons]
        grind

end Contents

/-- Lookups are seen in the size of a store only.  Other lookups are left out of a history, or put into one that
lacks them, at will (`keep` says by their labels which of the longer history are in both): those in both give the
same.  At each point the store has just the keys whose last value stands, and its size is their number. -/
theorem lookups_unnoticed {visits : List (Visit ν)} (htimes : (visits.map (·.now)).Pairwise (· ≤ ·)) :
    (∀ keep : ν → Bool, (∀ v ∈ visits, keep v.label = false → v.access.isLookup = true) →
      answers (visits.filter (keep ·.label)) {} = (answers visits {}).filter (keep ·.1)) ∧
    ∀ sofar, sofar <+: visits →
      (∀ key entry, (visited sofar {}).find? key = some entry ↔ Stands sofar key entry) ∧
      ∃ keys : List Octets, keys.Nodup ∧ (∀ key, key ∈ keys ↔ ∃ entry, Stands sofar key entry) ∧
        (visited sofar {}).size = keys.length ∧ ((visited sofar {}).isEmpty = true ↔ keys = []) := by
  constructor
  · intro keep hkeep
    have hstart : ((0 :: visits.map (·.now)) : List Nat).Pairwise (· ≤ ·) :=
      List.pairwise_cons.mpr ⟨fun now _ => Nat.zero_le now, htimes⟩
    exact answers_filter (.refl {} 0) hstart hkeep
  · intro sofar _
    have hcontents (key : Octets) (entry : Entry) :
        (visited sofar {}).find? key = some entry ↔ Stands sofar key entry := by
      rw [find?_visited]
      simp
    have hkeys (key : Octets) :
        key ∈ (visited sofar {}).entries.keys ↔ ∃ entry, Stands sofar key entry := by
      rw [Dictionary.mem_keys_iff]
      exact exists_congr (hcontents key)
    refine ⟨hcontents, (visited sofar {}).entries.keys, ?_, hkeys, ?_, ?_⟩
    · exact List.pairwise_map.mpr (visited sofar {}).entries.distinct
    · rw [Dictionary.keys, List.length_map]
      rfl
    · rw [isEmpty, List.isEmpty_iff, Dictionary.keys, List.map_eq_nil_iff]

/-- The second of three lookups comes at the deadline and takes the entry out. -/
theorem lookups_unnoticed_at_deadline :
    let visits : List (Visit Nat) :=
      [⟨0, 10, .set [107] [1] 5⟩, ⟨1, 12, .get [107]⟩, ⟨2, 15, .get [107]⟩, ⟨3, 16, .get [107]⟩,
        ⟨4, 16, .set [107] [2] 0⟩, ⟨5, 16, .get [107]⟩]
    (visits.map (·.now)).Pairwise (· ≤ ·) ∧
      answers (visits.filter (·.label ≠ 2)) {} = [(1, some [1]), (3, none), (5, some [2])] ∧
      (visited (visits.take 2) {}).size = 1 ∧ (visited (visits.take 3) {}).size = 0 := by
  intro visits
  have htimes : (visits.map (·.now)).Pairwise (· ≤ ·) := by decide
  have hlookups : ∀ v ∈ visits, decide (v.label ≠ 2) = false → v.access.isLookup = true := by decide
  refine ⟨htimes, ?_, by decide, by decide⟩
  calc answers (visits.filter (·.label ≠ 2)) {}
    _ = (answers visits {}).filter (·.1 ≠ 2) := (lookups_unnoticed htimes).1 (· ≠ 2) hlookups
    _ = [(1, some [1]), (3, none), (5, some [2])] := by decide

end Store

end ShardedCache
