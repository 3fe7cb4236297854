import ShardedCache.Proofs.Store.Lookups

/-! Each call reads the clock first, and what it does under the lock is one step.  A lookup that finds an expired entry
comes back to remove it, and meanwhile others take their steps. -/

namespace ShardedCache

inductive Pending where
  | storing (key blob : Octets) (expiry : UInt32) (sampled : Nat)
  | looking (key : Octets) (sampled : Nat)
  /-- The lookup found an expired entry, which may be another one by now. -/
  | removing (key : Octets) (sampled : Nat)
deriving DecidableEq

inductive Stage where
  | over (answer : Option Octets)
  | left (rest : Pending)

def Stage.rest? : Stage → Option Pending
  | .over _ => none
  | .left rest => some rest

namespace Pending

def sampled : Pending → Nat
  | .storing _ _ _ sampled | .looking _ sampled | .removing _ sampled => sampled

def step (store : Store) : Pending → Store × Stage
  | .storing key blob expiry sampled => (store.set key blob expiry sampled, .over none)
  | .looking key sampled =>
    match store.peek key sampled with
    | .absent => (store, .over none)
    | .live blob => (store, .over (some blob))
    | .expired => (store, .left (.removing key sampled))
  -- The entry is looked at again, at the second of the first look.
  | .removing key sampled => (store.evict key sampled, .over none)

/-- A call that nobody comes between: its answer and the store that it leaves. -/
inductive Alone : Store → Pending → Option Octets → Store → Prop where
  | over {store after : Store} {call : Pending} {answer : Option Octets}
      (h : call.step store = (after, .over answer)) : Alone store call answer after
  | left {store next after : Store} {call rest : Pending} {answer : Option Octets}
      (h : call.step store = (next, .left rest)) (hrest : Alone next rest answer after) :
      Alone store call answer after

theorem alone_set (store : Store) (key blob : Octets) (expiry : UInt32) (now : Nat) :
    Alone store (.storing key blob expiry now) none (store.set key blob expiry now) :=
  .over rfl

theorem alone_get (store : Store) (key : Octets) (now : Nat) :
    Alone store (.looking key now) (store.get key now).1 (store.get key now).2 := by
  cases hpeek : store.peek key now with
  | absent =>
    simp only [Store.get, hpeek]
    apply Alone.over
    simp only [step, hpeek]
  | live blob =>
    simp only [Store.get, hpeek]
    apply Alone.over
    simp only [step, hpeek]
  | expired =>
    have hlook : step store (.looking key now) = (store, .left (.removing key now)) := by
      simp only [step, hpeek]
    simp only [Store.get, hpeek]
    apply Alone.left hlook
    exact .over rfl

theorem sampled_of_rest {store : Store} {call rest : Pending}
    (h : (call.step store).2.rest? = some rest) : rest.sampled = call.sampled := by
  cases call with
  | storing key blob expiry sampled => cases h
  | removing key sampled => cases h
  | looking key sampled =>
    simp only [step] at h
    split at h
    · cases h
    · cases h
    · obtain rfl := Option.some.inj h
      rfl

theorem find?_step (call : Pending) (store : Store) (key : Octets) :
    (call.step store).1.find? key = store.find? key ∨
      (∃ blob expiry sampled, call = .storing key blob expiry sampled) ∨
      (call = .removing key call.sampled ∧ store.Gone key call.sampled ∧
        (call.step store).1.find? key = none) := by
  cases call with
  | storing other blob expiry sampled =>
    by_cases hkey : key = other
    · subst hkey
      exact .inr (.inl ⟨blob, expiry, sampled, rfl⟩)
    · left
      rw [step, Store.find?_set, if_neg hkey]
  | looking other sampled =>
    left
    simp only [step]
    split <;> rfl
  | removing other sampled =>
    by_cases hkey : key = other
    · subst hkey
      by_cases hgone : store.Gone key sampled
      · exact .inr (.inr ⟨rfl, hgone, Store.find?_evict_of_gone hgone⟩)
      · exact .inl (Store.find?_evict_of_not_gone hgone key)
    · exact .inl (Store.find?_evict_of_ne hkey)

end Pending

structure Contention where
  store : Store := {}
  clock : Nat
  calls : List Pending := []

namespace Contention

inductive Turn where
  | tick (seconds : Nat)
  | ask (access : Store.Access)
  /-- The call at this place gets the lock. -/
  | proceed (place : Nat)

def step (world : Contention) : Turn → Contention
  | .tick seconds => { world with clock := world.clock + seconds }
  | .ask (.set key blob expiry) =>
    { world with calls := world.calls ++ [.storing key blob expiry world.clock] }
  | .ask (.get key) => { world with calls := world.calls ++ [.looking key world.clock] }
  -- Nothing depends on the clock here, so that the call has one step.
  | .ask .clear => { world with store := world.store.clear }
  | .proceed place =>
    match world.calls[place]? with
    | none => world
    | some call =>
      let (store, stage) := call.step world.store
      { world with
        store := store
        calls := world.calls.take place ++ stage.rest?.toList ++ world.calls.drop (place + 1) }

def run (world : Contention) (turns : List Turn) : Contention :=
  turns.foldl step world

variable {world : Contention} {key : Octets} {entry : Entry}

/-- No call read a second that the clock has not reached. -/
def Timely (world : Contention) : Prop :=
  ∀ call ∈ world.calls, call.sampled ≤ world.clock

namespace Timely

theorem step (h : world.Timely) (turn : Turn) : (world.step turn).Timely := by
  have hasked (call : Pending) (hcall : call.sampled = world.clock) :
      ∀ other ∈ world.calls ++ [call], other.sampled ≤ world.clock := by
    intro other hother
    rcases List.mem_append.mp hother with hother | hother
    · exact h other hother
    · obtain rfl := List.mem_singleton.mp hother
      exact Nat.le_of_eq hcall
  cases turn with
  | tick seconds =>
    intro call hcall
    exact Nat.le_trans (h call hcall) (Nat.le_add_right world.clock seconds)
  | ask access =>
    cases access with
    | set key blob expiry => exact hasked (.storing key blob expiry world.clock) rfl
    | get key => exact hasked (.looking key world.clock) rfl
    | clear => exact h
  | proceed place =>
    rw [Contention.step]
    split
    · exact h
    · rename_i call hcall
      intro other hother
      rcases List.mem_append.mp hother with hother | hother
      · rcases List.mem_append.mp hother with hother | hother
        · exact h other (List.mem_of_mem_take hother)
        · have hrest := Option.mem_toList.mp hother
          rw [Pending.sampled_of_rest hrest]
          exact h call (List.mem_of_getElem? hcall)
      · exact h other (List.mem_of_mem_drop hother)

theorem run (h : world.Timely) (turns : List Turn) : (world.run turns).Timely := by
  induction turns generalizing world with
  | nil => exact h
  | cons turn turns ih => exact ih (h.step turn)

end Timely

/-- The turn puts an entry under the key, or clears the store. -/
def Writes (world : Contention) (key : Octets) : Turn → Prop
  | .ask .clear => True
  | .proceed place => ∃ blob expiry sampled, world.calls[place]? = some (.storing key blob expiry sampled)
  | .tick _ | .ask (.set ..) | .ask (.get _) => False

/-- All that a turn does to what lies under a key. -/
inductive Change (world : Contention) (key : Octets) (turn : Turn) : Prop where
  | kept (hkept : (world.step turn).store.find? key = world.store.find? key)
  | written (hwrites : world.Writes key turn)
  | removed {place sampled : Nat} (hturn : turn = .proceed place)
      (hcall : world.calls[place]? = some (.removing key sampled))
      (hgone : world.store.Gone key world.clock)
      (hnone : (world.step turn).store.find? key = none)

theorem Timely.change (h : world.Timely) (key : Octets) (turn : Turn) : world.Change key turn := by
  cases turn with
  | tick seconds => exact .kept rfl
  | ask access =>
    cases access with
    | set other blob expiry => exact .kept rfl
    | get other => exact .kept rfl
    | clear => exact .written trivial
  | proceed place =>
    cases hcall : world.calls[place]? with
    | none =>
      apply Change.kept
      rw [Contention.step, hcall]
    | some call =>
      have hstore : (world.step (.proceed place)).store = (call.step world.store).1 := by
        rw [Contention.step, hcall]
      rcases call.find?_step world.store key with hkept | ⟨blob, expiry, sampled, rfl⟩ | hremoved
      · apply Change.kept
        rw [hstore, hkept]
      · exact .written ⟨blob, expiry, sampled, hcall⟩
      · obtain ⟨hremoving, ⟨entry, hentry, hexpired⟩, hnone⟩ := hremoved
        have hsampled : call.sampled ≤ world.clock := h call (List.mem_of_getElem? hcall)
        have hgone : world.store.Gone key world.clock :=
          ⟨entry, hentry, Entry.isExpired_mono hexpired hsampled⟩
        rw [hremoving] at hcall
        apply Change.removed rfl hcall hgone
        rw [hstore, hnone]

theorem clock_le_step (world : Contention) (turn : Turn) : world.clock ≤ (world.step turn).clock := by
  cases turn with
  | tick seconds => exact Nat.le_add_right world.clock seconds
  | ask access => cases access <;> exact Nat.le_refl _
  | proceed place =>
    rw [step]
    split <;> exact Nat.le_refl _

theorem clock_le_run (world : Contention) (turns : List Turn) : world.clock ≤ (world.run turns).clock := by
  induction turns generalizing world with
  | nil => exact Nat.le_refl _
  | cons turn turns ih => exact Nat.le_trans (world.clock_le_step turn) (ih (world.step turn))

def Unwritten (key : Octets) : Contention → List Turn → Prop
  | _, [] => True
  | world, turn :: turns => ¬ world.Writes key turn ∧ Unwritten key (world.step turn) turns

theorem Timely.stays (h : world.Timely) {turns : List Turn} (hentry : world.store.find? key = some entry)
    (hunwritten : Unwritten key world turns) :
    (world.run turns).store.find? key = some entry ∨ entry.isExpired (world.run turns).clock = true := by
  induction turns generalizing world with
  | nil => exact .inl hentry
  | cons turn turns ih =>
    obtain ⟨hnot, hrest⟩ := hunwritten
    cases h.change key turn with
    | kept hkept =>
      apply ih (h.step turn)
      · rw [hkept, hentry]
      · exact hrest
    | written hwrites => exact absurd hwrites hnot
    | removed hturn hcall hgone hnone =>
      obtain ⟨found, hfound, hexpired⟩ := hgone
      rw [hentry] at hfound
      obtain rfl := Option.some.inj hfound
      have hclock : world.clock ≤ (world.run (turn :: turns)).clock := world.clock_le_run (turn :: turns)
      exact .inr (Entry.isExpired_mono hexpired hclock)

/-- A lookup that is slow to remove what it found expired takes nothing out but what is gone by then.  Whatever the
turns before: the only other turns that change what lies under a key are those that write there, a removal leaves
the other keys alone, and an entry that nobody writes over stays until its deadline has passed. -/
theorem removals_spare_live (store : Store) (clock : Nat) (turns : List Turn) :
    let before : Contention := ({ store, clock } : Contention).run turns
    (∀ key turn, before.Change key turn) ∧
    (∀ place key sampled, before.calls[place]? = some (.removing key sampled) → ∀ other, other ≠ key →
      (before.step (.proceed place)).store.find? other = before.store.find? other) ∧
    ∀ key entry, before.store.find? key = some entry → ∀ later, Unwritten key before later →
      (before.run later).store.find? key = some entry ∨
        entry.isExpired (before.run later).clock = true := by
  intro before
  have hstart : ({ store, clock } : Contention).Timely := fun _ hcall => absurd hcall List.not_mem_nil
  have htimely : before.Timely := hstart.run turns
  refine ⟨htimely.change, ?_, ?_⟩
  · intro place key sampled hcall other hother
    cases htimely.change other (.proceed place) with
    | kept hkept => exact hkept
    | written hwrites =>
      obtain ⟨blob, expiry, second, hstoring⟩ := hwrites
      rw [hcall] at hstoring
      cases hstoring
    | removed hturn hremoving hgone hnone =>
      cases hturn
      rw [hcall] at hremoving
      cases hremoving
      exact absurd rfl hother
  · intro key entry hentry later hunwritten
    exact htimely.stays hentry hunwritten

/-- The entry that a lookup found expired is overwritten before the lookup comes back to remove it. -/
theorem removals_spare_live_overwritten :
    let before : Contention := ({ clock := 10 } : Contention).run
      [.ask (.set [107] [1] 5), .proceed 0, .tick 10, .ask (.get [107]), .proceed 0,
        .ask (.set [107] [2] 0), .proceed 1]
    before.calls[0]? = some (.removing [107] 20) ∧
      before.store.find? [107] = some { blob := [2] } ∧
      (before.run [.proceed 0]).calls = [] ∧
      (before.run [.proceed 0]).store.find? [107] = some { blob := [2] } := by
  intro before
  have hcall : before.calls[0]? = some (.removing [107] 20) := by decide
  have hentry : before.store.find? [107] = some { blob := [2] } := by decide
  have hunwritten : Unwritten [107] before [.proceed 0] := by
    refine ⟨?_, trivial⟩
    rintro ⟨blob, expiry, second, hstoring⟩
    rw [hcall] at hstoring
    cases hstoring
  refine ⟨hcall, hentry, by decide, ?_⟩
  rcases (removals_spare_live {} 10 _).2.2 [107] _ hentry [.proceed 0] hunwritten with hstays | hexpired
  · exact hstays
  · cases hexpired

end Contention

end ShardedCache
