import Mathlib.Data.List.Basic
import ShardedCache.Pool.Shared
import ShardedCache.Proofs.Pool.Lending

/-! Step by step, the operations of a shared pool do what those of `Pool` do at once, as long as nobody else uses
it. -/

namespace ShardedCache.Pool

/-- A pool and the world outside, in the hands of one user. -/
structure Alone (α κ ν : Type) where
  pool : Pool α κ
  world : ν
  now : Nat
  closed : List κ := []

namespace Alone

variable {α κ ν β : Type}

def absorb (alone : Alone α κ ν) (outcome : Outcome α κ β) : Alone α κ ν :=
  { alone with pool := outcome.pool, closed := alone.closed ++ outcome.closed }

def outside (action : ν → β × ν) : StateM (Alone α κ ν) β := fun alone =>
  ((action alone.world).1, { alone with world := (action alone.world).2 })

def shared (valid : ν → κ → Bool) : Shared (StateM (Alone α κ ν)) α κ where
  update change := fun alone => ((change alone.pool).1, { alone with pool := (change alone.pool).2 })
  usable conn := fun alone => (valid alone.world conn, alone)
  close conn := fun alone => ((), { alone with closed := alone.closed ++ [conn] })
  clock := fun alone => (alone.now, alone)

variable (valid : ν → κ → Bool) (alone : Alone α κ ν)

@[simp] theorem run_outside (action : ν → β × ν) :
    (outside action).run alone =
      pure ((action alone.world).1, { alone with world := (action alone.world).2 }) := rfl

@[simp] theorem run_update (change : Pool α κ → β × Pool α κ) :
    ((shared valid).update change).run alone =
      pure ((change alone.pool).1, { alone with pool := (change alone.pool).2 }) := rfl

@[simp] theorem run_look (read : Pool α κ → β) :
    ((shared valid).look read).run alone = pure (read alone.pool, alone) := rfl

@[simp] theorem run_usable (conn : κ) :
    ((shared valid).usable conn).run alone = pure (valid alone.world conn, alone) := rfl

@[simp] theorem run_close (conn : κ) :
    ((shared valid).close conn).run alone =
      pure ((), { alone with closed := alone.closed ++ [conn] }) := rfl

@[simp] theorem run_clock : (shared valid).clock.run alone = pure (alone.now, alone) := rfl

theorem run_judge (lifetime now : Nat) (idle : List (Idle κ)) :
    ((shared valid).judge lifetime now idle).run alone =
      pure (idle.filter (survives (valid alone.world) lifetime now),
        { alone with
          closed := alone.closed ++
            (idle.filter fun entry => !survives (valid alone.world) lifetime now entry).map (·.conn) }) := by
  induction idle generalizing alone with
  | nil => simp [Shared.judge]
  | cons entry rest ih =>
    by_cases hfresh : now - entry.since < lifetime <;> cases hvalid : valid alone.world entry.conn <;>
      simp [Shared.judge, survives, hfresh, hvalid, ih]

variable [DecidableEq α]

theorem run_takeIdle {key : α} {tries : Nat} (h : alone.pool.idleCount key < tries) :
    ((shared valid).takeIdle key tries).run alone =
      pure ((takeIdle (valid alone.world) key alone.pool).answer,
        alone.absorb (takeIdle (valid alone.world) key alone.pool)) := by
  induction tries generalizing alone with
  | zero => omega
  | succ tries ih =>
    rw [takeIdle_turn]
    cases hqueue : alone.pool.queue key with
    | nil => simp [Shared.takeIdle, pop, hqueue, absorb]
    | cons entry rest =>
      by_cases hvalid : valid alone.world entry.conn = true
      · simp [Shared.takeIdle, pop, hqueue, absorb, hvalid]
      · -- One connection less lies in the queue, so that one try less is enough.
        have hrest : (alone.pool.replace key rest).idleCount key < tries := by
          rw [idleCount, hqueue, List.length_cons] at h
          rw [idleCount, queue_replace (by simp [hqueue]), if_pos rfl]
          omega
        have hlater := ih
          { alone with pool := alone.pool.replace key rest, closed := alone.closed ++ [entry.conn] } hrest
        simp [Shared.takeIdle, pop, hqueue, hvalid, hlater, absorb]

theorem run_borrow (create : ν → Except IoError κ × ν) (key : α) :
    ((shared valid).borrow (outside create) key).run alone =
      pure ((borrow (valid alone.world) create key alone.pool alone.world).1.answer,
        { alone.absorb (borrow (valid alone.world) create key alone.pool alone.world).1 with
          world := (borrow (valid alone.world) create key alone.pool alone.world).2 }) := by
  have htaken := run_takeIdle valid alone (Nat.lt_succ_self (alone.pool.idleCount key))
  cases hanswer : (takeIdle (valid alone.world) key alone.pool).answer <;>
    simp [Shared.borrow, htaken, hanswer, borrow, absorb]

theorem run_giveBack (key : α) (conn : κ) :
    ((shared valid).giveBack key conn).run alone =
      pure ((), alone.absorb (giveBack (valid alone.world) alone.now key conn alone.pool)) := by
  cases hclosed : alone.pool.isClosed <;> cases hvalid : valid alone.world conn <;>
    simp [Shared.giveBack, giveBack, hclosed, hvalid, absorb]

theorem run_sweepKey (now : Nat) (key : α) :
    ((shared valid).sweepKey now key).run alone =
      pure ((sweepKey (valid alone.world) now alone.pool key).answer,
        alone.absorb (sweepKey (valid alone.world) now alone.pool key)) := by
  have hcount (keep : Idle κ → Bool) (idle : List (Idle κ)) :
      idle.length - (idle.filter keep).length = (idle.filter fun entry => !keep entry).length := by
    have hsplit := idle.length_eq_length_filter_add keep
    omega
  simp [Shared.sweepKey, run_judge, sweepKey, takeAll, absorb, hcount, Function.comp_def]

theorem run_sweepKeys (now : Nat) (keys : List α) (sofar : Outcome α κ Nat) :
    (keys.foldlM (fun gone key => return gone + (← (shared valid).sweepKey now key))
        sofar.answer).run (alone.absorb sofar) =
      pure ((keys.foldl (sweepOn (valid alone.world) now) sofar).answer,
        alone.absorb (keys.foldl (sweepOn (valid alone.world) now) sofar)) := by
  induction keys generalizing sofar with
  | nil => rfl
  | cons key keys ih =>
    rw [List.foldl_cons, ← ih]
    simp [run_sweepKey, sweepOn, absorb]

theorem run_sweep :
    (shared valid).sweep.run alone =
      pure ((sweep (valid alone.world) alone.now alone.pool).answer,
        alone.absorb (sweep (valid alone.world) alone.now alone.pool)) := by
  have hstart : alone.absorb { answer := 0, pool := alone.pool } = alone := by
    simp [absorb]
  have hswept := run_sweepKeys valid alone alone.now alone.pool.queues.keys
    { answer := 0, pool := alone.pool }
  rw [hstart, ← sweep_eq_foldl] at hswept
  simpa [Shared.sweep] using hswept

end Alone

end ShardedCache.Pool
