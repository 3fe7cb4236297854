import Mathlib.Data.List.Basic
import ShardedCache.Proofs.Pool.Lending

namespace ShardedCache

namespace Pool

variable {α κ : Type} [DecidableEq α]

/-- What a sweep leaves of a queue: none at all if nothing survives. -/
def leftOver (valid : κ → Bool) (lifetime now : Nat) (idle : List (Idle κ)) : Option (List (Idle κ)) :=
  let kept := idle.filter (survives valid lifetime now)
  if kept = [] then none else some kept

theorem isSome_leftOver {valid : κ → Bool} {lifetime now : Nat} {idle : List (Idle κ)} :
    (leftOver valid lifetime now idle).isSome = true ↔
      ∃ entry ∈ idle, survives valid lifetime now entry = true := by
  rw [leftOver]
  by_cases hkept : idle.filter (survives valid lifetime now) = []
  · rw [if_pos hkept]
    have hnone := List.filter_eq_nil_iff.mp hkept
    constructor
    · intro h
      cases h
    · rintro ⟨entry, hentry, hsurvives⟩
      exact absurd hsurvives (hnone entry hentry)
  · rw [if_neg hkept]
    obtain ⟨entry, hentry⟩ := List.exists_mem_of_ne_nil _ hkept
    have hfront := List.mem_filter.mp hentry
    exact ⟨fun _ => ⟨entry, hfront⟩, fun _ => rfl⟩

section

variable (valid : κ → Bool) (now : Nat) (pool : Pool α κ)

theorem find?_sweepKey (key other : α) :
    (pool.sweepKey valid now key).pool.queues.find? other =
      if other = key then leftOver valid pool.lifetime now (pool.queue key)
      else pool.queues.find? other := by
  have hempty : (pool.replace key []).queue key = [] := by
    rw [queue_replace fun _ => rfl, if_pos rfl]
  simp only [sweepKey, takeAll, List.partition_eq_filter_filter, restore, hempty, leftOver, if_true]
  by_cases hkept : (pool.queue key).filter (survives valid pool.lifetime now) = []
  · simp only [if_pos hkept, Dictionary.find?_erase, find?_replace]
    split <;> rfl
  · simp only [if_neg hkept, Dictionary.find?_insert, find?_replace, List.nil_append]
    split <;> rfl

/-- A sweep decides for each key by the queue of that key alone. -/
theorem find?_sweep (key : α) :
    (pool.sweep valid now).pool.queues.find? key =
      leftOver valid pool.lifetime now (pool.queue key) := by
  have hfold (keys : List α) (sofar : Outcome α κ Nat) :
      (keys.foldl (sweepOn valid now) sofar).pool.queues.find? key =
        if key ∈ keys then leftOver valid sofar.pool.lifetime now (sofar.pool.queue key)
        else sofar.pool.queues.find? key := by
    induction keys generalizing sofar with
    | nil => rfl
    | cons first keys ih =>
      rw [List.foldl_cons, ih]
      simp only [sweepOn, lifetime_sweepKey, queue_sweepKey, find?_sweepKey]
      by_cases hkey : key = first
      · simp [hkey, leftOver]
      · simp [hkey]
  rw [sweep_eq_foldl, hfold]
  by_cases hkey : key ∈ pool.queues.keys
  · rw [if_pos hkey]
  · have hnone : pool.queues.find? key = none := Dictionary.find?_of_not_mem_keys hkey
    have hqueue : pool.queue key = [] := by rw [queue, hnone]; rfl
    rw [if_neg hkey, hnone, hqueue]
    rfl

theorem lifetime_sweep : (pool.sweep valid now).pool.lifetime = pool.lifetime := by
  rw [sweep_eq_foldl]
  apply List.foldlRecOn (motive := fun sofar : Outcome α κ Nat => sofar.pool.lifetime = pool.lifetime)
  · rfl
  · intro sofar h key _
    rw [sweepOn, lifetime_sweepKey, h]

theorem closed_sweepKey (key : α) :
    (pool.sweepKey valid now key).closed =
      ((pool.queue key).filter fun entry => !survives valid pool.lifetime now entry).map (·.conn) := by
  simp only [sweepKey, takeAll, List.partition_eq_filter_filter]
  rfl

/-- Keys that differ are swept apart: what one of them closes lay in its own queue from the start. -/
theorem closed_foldl {keys : List α} (h : keys.Nodup) (sofar : Outcome α κ Nat) :
    (keys.foldl (sweepOn valid now) sofar).closed =
      sofar.closed ++ keys.flatMap fun key =>
        ((sofar.pool.queue key).filter fun entry =>
          !survives valid sofar.pool.lifetime now entry).map (·.conn) := by
  induction keys generalizing sofar with
  | nil => exact (List.append_nil _).symm
  | cons key keys ih =>
    obtain ⟨hkey, hkeys⟩ := List.nodup_cons.mp h
    have hothers : ∀ other ∈ keys,
        (sofar.pool.sweepKey valid now key).pool.queue other = sofar.pool.queue other := by
      intro other hother
      rw [queue_sweepKey, if_neg]
      rintro rfl
      exact hkey hother
    rw [List.foldl_cons, ih hkeys, List.flatMap_cons]
    simp only [sweepOn, lifetime_sweepKey, closed_sweepKey, List.append_assoc]
    congr 2
    apply List.flatMap_congr
    intro other hother
    rw [hothers other hother]

theorem closed_sweep :
    (pool.sweep valid now).closed =
      (pool.everyIdle.filter fun entry => !survives valid pool.lifetime now entry).map (·.conn) := by
  have hkeys : pool.queues.keys.Nodup := List.pairwise_map.mpr pool.queues.distinct
  rw [sweep_eq_foldl, closed_foldl valid now hkeys, List.nil_append, Dictionary.keys, List.flatMap_map,
    everyIdle, List.filter_flatMap, List.map_flatMap]
  apply List.flatMap_congr
  intro entry hentry
  have hqueue : pool.queue entry.1 = entry.2 := by
    rw [queue, Dictionary.find?_of_mem_entries hentry, Option.getD_some]
  rw [hqueue]

theorem answer_sweep : (pool.sweep valid now).answer = (pool.sweep valid now).closed.length := by
  rw [sweep_eq_foldl]
  apply List.foldlRecOn (motive := fun sofar : Outcome α κ Nat => sofar.answer = sofar.closed.length)
  · rfl
  · intro sofar h key _
    simp only [sweepOn, sweepKey, List.length_append, List.length_map, h]

theorem totalIdle_sweep :
    pool.totalIdle = (pool.sweep valid now).pool.totalIdle + (pool.sweep valid now).answer := by
  have hlength := (idle_sweep valid now pool).length_eq
  rw [answer_sweep]
  simpa only [totalIdle, idle, List.length_append, List.length_map] using hlength

structure Same (before after : Pool α κ) : Prop where
  queues : ∀ key, after.queues.find? key = before.queues.find? key
  lifetime : after.lifetime = before.lifetime
  isClosed : after.isClosed = before.isClosed

/-- A second sweep finds nothing that it could close, and leaves each queue as it is. -/
theorem sweep_again :
    let swept := (pool.sweep valid now).pool
    (swept.sweep valid now).answer = 0 ∧ (swept.sweep valid now).closed = [] ∧
      swept.Same (swept.sweep valid now).pool := by
  intro swept
  have hlifetime : swept.lifetime = pool.lifetime := lifetime_sweep valid now pool
  have hqueue (key : α) : swept.queue key =
      (pool.queue key).filter (survives valid pool.lifetime now) := queue_sweep valid now pool key
  have hclosed : (swept.sweep valid now).closed = [] := by
    rw [closed_sweep, hlifetime, List.map_eq_nil_iff, List.filter_eq_nil_iff]
    intro entry hentry
    obtain ⟨⟨key, idle⟩, hpair, hidle⟩ := List.mem_flatMap.mp hentry
    have hmem : entry ∈ swept.queue key := by
      rw [queue, Dictionary.find?_of_mem_entries hpair]
      exact hidle
    rw [hqueue] at hmem
    have hsurvives := (List.mem_filter.mp hmem).2
    rw [hsurvives]
    exact Bool.false_ne_true
  refine ⟨?_, hclosed, ?_, lifetime_sweep valid now swept, isClosed_sweep valid now swept⟩
  · rw [answer_sweep, hclosed]
    rfl
  · intro key
    have hkept := find?_sweep valid now pool key
    rw [find?_sweep, hlifetime, hkept, hqueue, leftOver, leftOver, List.filter_filter]
    simp only [Bool.and_self]

end

/-- A whole operation, with what is of use when it asks. -/
inductive Operation (α κ : Type) where
  /-- Where nothing idle is of use, `created` is what creating a connection comes to. -/
  | borrow (valid : κ → Bool) (created : Except IoError κ) (key : α)
  | giveBack (valid : κ → Bool) (now : Nat) (key : α) (conn : κ)
  | sweep (valid : κ → Bool) (now : Nat)
  | close

def Operation.stamp? : Operation α κ → Option Nat
  | .giveBack _ now _ _ => some now
  | .borrow .. | .sweep .. | .close => none

def operate (pool : Pool α κ) : Operation α κ → Pool α κ
  | .borrow valid created key => (pool.borrow valid (fun _ => (created, ())) key ()).1.pool
  | .giveBack valid now key conn => (pool.giveBack valid now key conn).pool
  | .sweep valid now => (pool.sweep valid now).pool
  | .close => pool.close.pool

def operated (lifetime : Nat) (operations : List (Operation α κ)) : Pool α κ :=
  operations.foldl operate { lifetime := lifetime }

theorem lifetime_close (pool : Pool α κ) : pool.close.pool.lifetime = pool.lifetime := by
  rw [close_eq_foldl]
  apply List.foldlRecOn (motive := fun sofar : Outcome α κ Unit => sofar.pool.lifetime = pool.lifetime)
  · rfl
  · intro sofar h key _
    exact h

theorem lifetime_operate (pool : Pool α κ) (operation : Operation α κ) :
    (pool.operate operation).lifetime = pool.lifetime := by
  cases operation with
  | borrow valid created key =>
    rw [operate, pool_borrow, takeIdle]
    split <;> exact lifetime_replace ..
  | giveBack valid now key conn =>
    rw [operate, giveBack]
    split <;> rfl
  | sweep valid now => exact lifetime_sweep valid now pool
  | close => exact lifetime_close pool

theorem lifetime_operated (lifetime : Nat) (operations : List (Operation α κ)) :
    (operated lifetime operations).lifetime = lifetime := by
  apply List.foldlRecOn (motive := fun pool : Pool α κ => pool.lifetime = lifetime)
  · rfl
  · intro pool h operation _
    rw [lifetime_operate, h]

/-- Each queue stands in the order of its times, none of which is later than `now`. -/
structure InOrder (pool : Pool α κ) (now : Nat) : Prop where
  sorted : ∀ key, (pool.queue key).Pairwise (·.since ≤ ·.since)
  past : ∀ key, ∀ entry ∈ pool.queue key, entry.since ≤ now

namespace InOrder

variable {pool after : Pool α κ} {now later : Nat}

theorem new (lifetime now : Nat) : ({ lifetime := lifetime } : Pool α κ).InOrder now :=
  ⟨fun _ => .nil, nofun⟩

theorem of_sublist (h : pool.InOrder now) (hqueue : ∀ key, (after.queue key).Sublist (pool.queue key)) :
    after.InOrder now := by
  constructor
  · intro key
    exact (h.sorted key).sublist (hqueue key)
  · intro key entry hentry
    exact h.past key entry ((hqueue key).subset hentry)

theorem giveBack (h : pool.InOrder now) (hle : now ≤ later) (valid : κ → Bool) (key : α) (conn : κ) :
    (pool.giveBack valid later key conn).pool.InOrder later := by
  have hpast (other : α) (entry : Idle κ) (hentry : entry ∈ pool.queue other) : entry.since ≤ later :=
    Nat.le_trans (h.past other entry hentry) hle
  rcases giveBack_cases valid later key conn pool with ⟨-, hqueue⟩ | hsame
  · constructor
    · intro other
      rw [hqueue]
      split
      · apply List.pairwise_append.mpr
        refine ⟨h.sorted key, List.pairwise_singleton .., ?_⟩
        intro entry hentry last hlast
        rw [List.mem_singleton.mp hlast]
        exact hpast key entry hentry
      · exact h.sorted other
    · intro other entry hentry
      rcases mem_queue_giveBack hentry with hentry | ⟨-, rfl⟩
      · exact hpast other entry hentry
      · exact Nat.le_refl later
  · rw [hsame]
    exact ⟨h.sorted, hpast⟩

theorem operate (h : pool.InOrder now) {operation : Operation α κ}
    (hstamp : ∀ stamp ∈ operation.stamp?, now ≤ stamp) :
    (pool.operate operation).InOrder (operation.stamp?.getD now) := by
  cases operation with
  | borrow valid created key =>
    apply h.of_sublist
    intro other
    exact queue_borrow_sublist ..
  | giveBack valid later key conn => exact h.giveBack (hstamp later rfl) valid key conn
  | sweep valid time =>
    apply h.of_sublist
    intro key
    rw [Pool.operate, queue_sweep]
    exact List.filter_sublist
  | close =>
    apply h.of_sublist
    intro key
    rw [Pool.operate, pool.shut_close.queue]
    exact List.nil_sublist _

theorem foldl {operations : List (Operation α κ)} (h : pool.InOrder now)
    (htimes : (now :: operations.filterMap Operation.stamp?).Pairwise (· ≤ ·)) :
    ∃ last, (operations.foldl Pool.operate pool).InOrder last := by
  induction operations generalizing pool now with
  | nil => exact ⟨now, h⟩
  | cons operation operations ih =>
    obtain ⟨hnow, hlater⟩ := List.pairwise_cons.mp htimes
    have hstamp : ∀ stamp ∈ operation.stamp?, now ≤ stamp := by
      intro stamp hstamp
      apply hnow
      exact List.mem_filterMap.mpr ⟨operation, List.mem_cons_self, hstamp⟩
    apply ih (h.operate hstamp)
    cases hop : operation.stamp? with
    | none => simpa only [List.filterMap_cons, hop, Option.getD_none] using htimes
    | some stamp => simpa only [List.filterMap_cons, hop, Option.getD_some] using hlater

end InOrder

/-- Whatever a pool has been through, a sweep of it is a filter:

* each queue keeps just what is of use and was idle for less than the lifetime, in its order and with its times;
* all else is closed, each connection once, and the answer is by how much the pool shrinks;
* a key has a queue afterwards if something under it survives, and no queue otherwise;
* another sweep at the same time closes nothing and leaves the pool as it is.

If the times of the returns do not decrease, each queue is ordered by them. -/
theorem sweep_filters_queues (lifetime : Nat) (operations : List (Operation α κ)) (valid : κ → Bool)
    (now : Nat) :
    let pool := operated lifetime operations
    let swept := pool.sweep valid now
    let stays : Idle κ → Bool := fun entry => now - entry.since < lifetime && valid entry.conn
    (∀ key, swept.pool.queue key = (pool.queue key).filter stays) ∧
      swept.closed = (pool.everyIdle.filter fun entry => !stays entry).map (·.conn) ∧
      pool.totalIdle = swept.pool.totalIdle + swept.answer ∧
      (∀ key, (swept.pool.queues.find? key).isSome = true ↔
        ∃ entry ∈ pool.queue key, stays entry = true) ∧
      ((swept.pool.sweep valid now).answer = 0 ∧ (swept.pool.sweep valid now).closed = [] ∧
        swept.pool.Same (swept.pool.sweep valid now).pool) ∧
      ((operations.filterMap Operation.stamp?).Pairwise (· ≤ ·) →
        ∀ key, (pool.queue key).Pairwise (·.since ≤ ·.since)) := by
  intro pool swept stays
  have hstays : survives valid pool.lifetime now = stays := by
    rw [lifetime_operated]
    rfl
  refine ⟨?_, ?_, totalIdle_sweep valid now pool, ?_, sweep_again valid now pool, ?_⟩
  · intro key
    rw [← hstays]
    exact queue_sweep valid now pool key
  · rw [← hstays]
    exact closed_sweep valid now pool
  · intro key
    rw [← hstays]
    change ((pool.sweep valid now).pool.queues.find? key).isSome = true ↔ _
    rw [find?_sweep]
    exact isSome_leftOver
  · intro htimes key
    have hzero : (0 :: operations.filterMap Operation.stamp?).Pairwise (· ≤ ·) :=
      List.pairwise_cons.mpr ⟨fun _ _ => Nat.zero_le _, htimes⟩
    obtain ⟨last, hlast⟩ := (InOrder.new lifetime 0).foldl hzero
    exact hlast.sorted key

/-- Two connections lie under one key, of which one was idle too long and the other is kept; a dead one goes with its
whole queue, and so does one that was idle for just the lifetime. -/
theorem sweep_filters_queues_mixed :
    let operations : List (Operation Char Nat) :=
      [.giveBack (fun _ => true) 1 'a' 0, .giveBack (fun _ => true) 2 'b' 1,
        .giveBack (fun _ => true) 5 'a' 2, .giveBack (fun _ => true) 6 'c' 3]
    let swept := (operated 10 operations).sweep (· ≠ 3) 12
    (operations.filterMap Operation.stamp?).Pairwise (· ≤ ·) ∧
      (∀ key, ((operated 10 operations).queue key).Pairwise (·.since ≤ ·.since)) ∧
      (swept.pool.queue 'a').map (·.conn) = [2] ∧ swept.closed = [3, 0, 1] ∧ swept.answer = 3 ∧
      (swept.pool.queues.find? 'b').isSome = false ∧ (swept.pool.sweep (· ≠ 3) 12).answer = 0 := by
  intro operations swept
  have htimes : (operations.filterMap Operation.stamp?).Pairwise (· ≤ ·) := by decide
  obtain ⟨hqueue, hclosed, hcount, hfind, ⟨hagain, -, -⟩, hordered⟩ :=
    sweep_filters_queues 10 operations (· ≠ 3) 12
  refine ⟨htimes, hordered htimes, ?_, ?_, ?_, ?_, hagain⟩
  · rw [hqueue]
    decide
  · rw [hclosed]
    decide
  · decide
  · rw [Bool.eq_false_iff, ne_eq, hfind]
    decide

end Pool

end ShardedCache
