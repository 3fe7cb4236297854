import ShardedCache.Proofs.Pool.Queues

namespace ShardedCache

namespace Dictionary

theorem perm_cons_filter_of_lookup {α β : Type} [DecidableEq α] {entries : List (α × β)} {key : α}
    {value : β} (hdistinct : entries.Pairwise (·.1 ≠ ·.1)) (h : entries.lookup key = some value) :
    entries.Perm ((key, value) :: entries.filter (·.1 ≠ key)) := by
  induction entries with
  | nil => cases h
  | cons entry entries ih =>
    obtain ⟨own, first⟩ := entry
    obtain ⟨hfirst, hrest⟩ := List.pairwise_cons.mp hdistinct
    by_cases hkey : key = own
    · subst hkey
      have hothers : entries.filter (·.1 ≠ key) = entries := by
        apply List.filter_eq_self.mpr
        intro other hother
        have hne : key ≠ other.1 := hfirst other hother
        simpa using hne.symm
      have hdrop : ((key, first) :: entries).filter (·.1 ≠ key) = entries := by
        rw [List.filter_cons_of_neg (by simp), hothers]
      have hvalue : first = value := by
        simpa [List.lookup_cons] using h
      rw [hdrop, hvalue]
    · have hlookup : entries.lookup key = some value := by
        have hbeq : (key == own) = false := by simpa using hkey
        simpa only [List.lookup_cons, hbeq] using h
      have hkeep : ((own, first) :: entries).filter (·.1 ≠ key) =
          (own, first) :: entries.filter (·.1 ≠ key) :=
        List.filter_cons_of_pos (by simpa using fun heq => hkey heq.symm)
      rw [hkeep]
      exact ((ih hrest hlookup).cons (own, first)).trans (List.Perm.swap ..)

end Dictionary

namespace Pool

variable {α κ : Type}

def idle (pool : Pool α κ) : List κ :=
  pool.everyIdle.map (·.conn)

theorem idle_of_entries {pool : Pool α κ} (h : pool.queues.entries = []) : pool.idle = [] := by
  rw [idle, everyIdle, h]
  rfl

theorem perm_append_closed {before after sofar closed : List κ} (h : before.Perm (after ++ closed)) :
    (before ++ sofar).Perm (after ++ (sofar ++ closed)) := by
  calc List.Perm (before ++ sofar) (after ++ closed ++ sofar) := h.append_right sofar
    List.Perm _ (after ++ (sofar ++ closed)) := by
      rw [List.append_assoc]
      exact List.perm_append_comm.append_left after

/-- A row of steps, none of which loses a connection. -/
theorem idle_foldl {β : Type} (step : Outcome α κ β → α → Outcome α κ β)
    (hstep : ∀ (sofar : Outcome α κ β) (key : α), (sofar.pool.idle ++ sofar.closed).Perm
      ((step sofar key).pool.idle ++ (step sofar key).closed))
    (keys : List α) (sofar : Outcome α κ β) :
    (sofar.pool.idle ++ sofar.closed).Perm
      ((keys.foldl step sofar).pool.idle ++ (keys.foldl step sofar).closed) := by
  induction keys generalizing sofar with
  | nil => exact List.Perm.refl _
  | cons key keys ih => exact (hstep sofar key).trans (ih (step sofar key))

variable [DecidableEq α]

theorem exists_mem_queue {pool : Pool α κ} {conn : κ} (h : conn ∈ pool.idle) :
    ∃ key, ∃ entry ∈ pool.queue key, entry.conn = conn := by
  obtain ⟨entry, hentry, rfl⟩ := List.mem_map.mp h
  obtain ⟨⟨key, idle⟩, hpair, hidle⟩ := List.mem_flatMap.mp hentry
  refine ⟨key, entry, ?_, rfl⟩
  rw [queue, Dictionary.find?_of_mem_entries hpair]
  exact hidle

/-- A sweep that got as far as to this key. -/
def sweepOn (valid : κ → Bool) (now : Nat) (sofar : Outcome α κ Nat) (key : α) : Outcome α κ Nat :=
  let swept := sofar.pool.sweepKey valid now key
  { answer := sofar.answer + swept.answer
    pool := swept.pool
    closed := sofar.closed ++ swept.closed }

theorem sweep_eq_foldl (valid : κ → Bool) (now : Nat) (pool : Pool α κ) :
    pool.sweep valid now = pool.queues.keys.foldl (sweepOn valid now) { answer := 0, pool := pool } :=
  rfl

def discardOn (sofar : Outcome α κ Unit) (key : α) : Outcome α κ Unit :=
  let left := sofar.pool.discard key
  { left with closed := sofar.closed ++ left.closed }

theorem close_eq_foldl (pool : Pool α κ) :
    pool.close =
      pool.queues.keys.foldl discardOn { answer := (), pool := { pool with isClosed := true } } :=
  rfl

def elsewhere (pool : Pool α κ) (key : α) : List (Idle κ) :=
  (pool.queues.erase key).entries.flatMap (·.2)

theorem everyIdle_perm (pool : Pool α κ) (key : α) :
    pool.everyIdle.Perm (pool.queue key ++ pool.elsewhere key) := by
  cases hfind : pool.queues.find? key with
  | none =>
    have hothers : (pool.queues.erase key).entries = pool.queues.entries := by
      apply List.filter_eq_self.mpr
      intro entry hentry
      have hne := List.lookup_eq_none_iff.mp hfind entry hentry
      simpa using fun heq : entry.1 = key => (by simpa using hne : key ≠ entry.1) heq.symm
    have hqueue : pool.queue key = [] := by rw [queue, hfind]; rfl
    rw [hqueue, elsewhere, hothers]
    exact List.Perm.refl _
  | some idle =>
    have hqueue : pool.queue key = idle := by rw [queue, hfind]; rfl
    have hperm := Dictionary.perm_cons_filter_of_lookup pool.queues.distinct hfind
    rw [hqueue]
    exact hperm.flatMap_right (·.2)

/-- Only a key that has a queue gets a new one, so an empty queue stays empty. -/
theorem everyIdle_replace (pool : Pool α κ) (key : α) (idle : List (Idle κ))
    (h : pool.queue key = [] → idle = []) :
    (pool.replace key idle).everyIdle.Perm (idle ++ pool.elsewhere key) := by
  rw [replace]
  cases hfind : pool.queues.find? key with
  | none =>
    have hqueue : pool.queue key = [] := by rw [queue, hfind]; rfl
    have hperm := pool.everyIdle_perm key
    rw [hqueue] at hperm
    rw [h hqueue]
    exact hperm
  | some _ => exact List.Perm.refl _

theorem mem_idle {pool : Pool α κ} {key : α} {entry : Idle κ} (h : entry ∈ pool.queue key) :
    entry.conn ∈ pool.idle := by
  have hmem := (pool.everyIdle_perm key).mem_iff.mpr (List.mem_append_left _ h)
  exact List.mem_map.mpr ⟨entry, hmem, rfl⟩

theorem everyIdle_push (pool : Pool α κ) (key : α) (entry : Idle κ) :
    (pool.push key entry).everyIdle.Perm (entry :: pool.everyIdle) := by
  have hpush : (pool.push key entry).everyIdle = (pool.queue key ++ [entry]) ++ pool.elsewhere key := rfl
  rw [hpush, List.append_assoc, List.singleton_append]
  exact List.perm_middle.trans ((pool.everyIdle_perm key).symm.cons entry)

theorem everyIdle_takeAll (pool : Pool α κ) (key : α) :
    pool.everyIdle.Perm ((pool.takeAll key).1 ++ (pool.takeAll key).2.everyIdle) := by
  have hemptied := everyIdle_replace pool key [] fun _ => rfl
  exact (pool.everyIdle_perm key).trans (hemptied.symm.append_left _)

theorem everyIdle_restore (pool : Pool α κ) (key : α) (survivors : List (Idle κ)) :
    (pool.restore key survivors).everyIdle.Perm (survivors ++ pool.everyIdle) := by
  have hall := pool.everyIdle_perm key
  rw [restore]
  by_cases hnone : survivors = []
  · rw [if_pos hnone, hnone, List.nil_append]
    by_cases hempty : pool.queue key = []
    · rw [if_pos hempty]
      rw [hempty] at hall
      exact hall.symm
    · rw [if_neg hempty]
  · rw [if_neg hnone]
    calc List.Perm (pool.queue key ++ survivors ++ pool.elsewhere key)
          (survivors ++ pool.queue key ++ pool.elsewhere key) := List.perm_append_comm.append_right _
      List.Perm _ (survivors ++ (pool.queue key ++ pool.elsewhere key)) := by rw [List.append_assoc]
      List.Perm _ (survivors ++ pool.everyIdle) := hall.symm.append_left survivors

theorem idle_takeIdle (valid : κ → Bool) (key : α) (pool : Pool α κ) :
    pool.idle.Perm ((takeIdle valid key pool).answer.toList ++
      ((takeIdle valid key pool).pool.idle ++ (takeIdle valid key pool).closed)) := by
  have hsplit := List.takeWhile_append_dropWhile (p := fun entry => !valid entry.conn) (l := pool.queue key)
  have hall := pool.everyIdle_perm key
  rw [← hsplit] at hall
  match hdrop : (pool.queue key).dropWhile fun entry => !valid entry.conn with
  | [] =>
    have hafter := everyIdle_replace pool key [] fun _ => rfl
    rw [hdrop, List.append_nil] at hall
    have hperm := hall.trans (List.perm_append_comm.trans (hafter.symm.append_right _))
    simpa only [takeIdle, hdrop, idle, Option.toList_none, List.nil_append, List.map_append] using
      hperm.map (·.conn)
  | entry :: rest =>
    have hafter := everyIdle_replace pool key rest (by
      intro hnil
      rw [hnil, List.dropWhile_nil] at hdrop
      cases hdrop)
    rw [hdrop, List.append_assoc, List.cons_append] at hall
    have hperm := hall.trans (List.perm_middle.trans
      ((List.perm_append_comm.trans (hafter.symm.append_right _)).cons entry))
    simpa only [takeIdle, hdrop, idle, Option.toList_some, List.cons_append, List.nil_append,
      List.map_cons, List.map_append] using hperm.map (·.conn)

theorem idle_borrow {ν : Type} (valid : κ → Bool) (create : ν → Except IoError κ × ν) (key : α)
    (pool : Pool α κ) (world : ν) :
    (∃ before entry rest, pool.queue key = before ++ entry :: rest ∧
        (borrow valid create key pool world).1.answer = .ok entry.conn ∧
        (borrow valid create key pool world).2 = world ∧
        pool.idle.Perm (entry.conn :: ((borrow valid create key pool world).1.pool.idle ++
          (borrow valid create key pool world).1.closed)) ∧
        ∀ other, (borrow valid create key pool world).1.pool.queue other =
          if other = key then rest else pool.queue other) ∨
      (borrow valid create key pool world).1.answer = (create world).1 ∧
        (borrow valid create key pool world).2 = (create world).2 ∧
        pool.idle.Perm ((borrow valid create key pool world).1.pool.idle ++
          (borrow valid create key pool world).1.closed) ∧
        ∀ other, (borrow valid create key pool world).1.pool.queue other =
          if other = key then [] else pool.queue other := by
  have hidle := idle_takeIdle valid key pool
  rcases takeIdle_cases valid key pool with
    ⟨before, entry, rest, hqueue, -, hanswer, hafter⟩ | ⟨hanswer, hafter⟩
  · rw [hanswer] at hidle
    left
    refine ⟨before, entry, rest, hqueue, ?_⟩
    simp only [borrow, hanswer]
    exact ⟨trivial, trivial, hidle, hafter⟩
  · rw [hanswer] at hidle
    right
    simp only [borrow, hanswer]
    exact ⟨trivial, trivial, hidle, hafter⟩

theorem idle_giveBack (valid : κ → Bool) (now : Nat) (key : α) (conn : κ) (pool : Pool α κ) :
    (conn :: pool.idle).Perm
      ((giveBack valid now key conn pool).pool.idle ++ (giveBack valid now key conn pool).closed) := by
  rw [giveBack]
  by_cases hclosed : (pool.isClosed || !valid conn) = true
  · rw [if_pos hclosed]
    exact (List.perm_append_singleton conn pool.idle).symm
  · rw [if_neg hclosed, List.append_nil]
    exact (everyIdle_push pool key ⟨conn, now⟩).symm.map (·.conn)

theorem idle_sweepKey (valid : κ → Bool) (now : Nat) (pool : Pool α κ) (key : α) :
    pool.idle.Perm ((pool.sweepKey valid now key).pool.idle ++ (pool.sweepKey valid now key).closed) := by
  let kept := (pool.queue key).filter (survives valid pool.lifetime now)
  let gone := (pool.queue key).filter (not ∘ survives valid pool.lifetime now)
  have htaken := everyIdle_takeAll pool key
  have hrestored := everyIdle_restore (pool.takeAll key).2 key kept
  have hperm : pool.everyIdle.Perm (((pool.takeAll key).2.restore key kept).everyIdle ++ gone) := by
    calc List.Perm pool.everyIdle (pool.queue key ++ (pool.takeAll key).2.everyIdle) := htaken
      List.Perm _ (kept ++ gone ++ (pool.takeAll key).2.everyIdle) :=
        (List.filter_append_perm (survives valid pool.lifetime now) _).symm.append_right _
      List.Perm _ (kept ++ (pool.takeAll key).2.everyIdle ++ gone) := by
        rw [List.append_assoc, List.append_assoc]
        exact List.perm_append_comm.append_left kept
      List.Perm _ (((pool.takeAll key).2.restore key kept).everyIdle ++ gone) :=
        hrestored.symm.append_right gone
  simpa only [sweepKey, takeAll, List.partition_eq_filter_filter, idle, List.map_append] using
    hperm.map (·.conn)

theorem idle_sweep (valid : κ → Bool) (now : Nat) (pool : Pool α κ) :
    pool.idle.Perm ((pool.sweep valid now).pool.idle ++ (pool.sweep valid now).closed) := by
  have hall := idle_foldl (sweepOn valid now)
    (fun sofar key => perm_append_closed (idle_sweepKey valid now sofar.pool key))
    pool.queues.keys { answer := 0, pool := pool }
  rwa [List.append_nil] at hall

theorem idle_discard (pool : Pool α κ) (key : α) :
    pool.idle.Perm ((pool.discard key).pool.idle ++ (pool.discard key).closed) := by
  have hperm := ((pool.everyIdle_perm key).trans List.perm_append_comm).map (·.conn)
  rwa [List.map_append] at hperm

theorem entries_close (pool : Pool α κ) : pool.close.pool.queues.entries = [] := by
  have hfold (keys : List α) (sofar : Outcome α κ Unit) :
      (keys.foldl discardOn sofar).pool.queues.entries =
        sofar.pool.queues.entries.filter (·.1 ∉ keys) := by
    induction keys generalizing sofar with
    | nil =>
      symm
      apply List.filter_eq_self.mpr
      intro entry _
      simp
    | cons key keys ih =>
      rw [List.foldl_cons, ih]
      simp only [discardOn, discard, Dictionary.erase, List.filter_filter]
      congr 1
      funext entry
      simp [Bool.and_comm]
  rw [close_eq_foldl, hfold, List.filter_eq_nil_iff]
  intro entry hentry
  have hkey : entry.1 ∈ pool.queues.keys := List.mem_map.mpr ⟨entry, hentry, rfl⟩
  simpa using hkey

theorem isClosed_close (pool : Pool α κ) : pool.close.pool.isClosed = true := by
  rw [close_eq_foldl]
  apply List.foldlRecOn (motive := fun sofar : Outcome α κ Unit => sofar.pool.isClosed = true)
  · rfl
  · intro sofar h key _
    exact h

@[simp] theorem isClosed_replace (pool : Pool α κ) (key : α) (idle : List (Idle κ)) :
    (pool.replace key idle).isClosed = pool.isClosed := by
  rw [replace]
  split <;> rfl

@[simp] theorem isClosed_restore (pool : Pool α κ) (key : α) (survivors : List (Idle κ)) :
    (pool.restore key survivors).isClosed = pool.isClosed := by
  rw [restore]
  by_cases hnone : survivors = []
  · rw [if_pos hnone]
    split <;> rfl
  · rw [if_neg hnone]

@[simp] theorem isClosed_takeIdle (valid : κ → Bool) (key : α) (pool : Pool α κ) :
    (takeIdle valid key pool).pool.isClosed = pool.isClosed := by
  rw [takeIdle]
  split <;> exact isClosed_replace ..

@[simp] theorem isClosed_giveBack (valid : κ → Bool) (now : Nat) (key : α) (conn : κ) (pool : Pool α κ) :
    (giveBack valid now key conn pool).pool.isClosed = pool.isClosed := by
  rw [giveBack]
  split <;> rfl

@[simp] theorem isClosed_sweep (valid : κ → Bool) (now : Nat) (pool : Pool α κ) :
    (pool.sweep valid now).pool.isClosed = pool.isClosed := by
  rw [sweep_eq_foldl]
  apply List.foldlRecOn (motive := fun sofar : Outcome α κ Nat => sofar.pool.isClosed = pool.isClosed)
  · rfl
  · intro sofar h key _
    simpa only [sweepOn, sweepKey, takeAll, isClosed_restore, isClosed_replace] using h

theorem idle_close (pool : Pool α κ) : pool.idle.Perm pool.close.closed := by
  have hall := idle_foldl discardOn
    (fun sofar key => perm_append_closed (idle_discard sofar.pool key))
    pool.queues.keys { answer := (), pool := { pool with isClosed := true } }
  have hclosed : (pool.idle ++ []).Perm (pool.close.pool.idle ++ pool.close.closed) := hall
  have hnone : pool.close.pool.idle = [] := idle_of_entries pool.entries_close
  rwa [hnone, List.append_nil] at hclosed

/-- The pool was closed for good and has no queue. -/
structure Shut (pool : Pool α κ) : Prop where
  isClosed : pool.isClosed = true
  entries : pool.queues.entries = []

theorem shut_close (pool : Pool α κ) : pool.close.pool.Shut :=
  ⟨pool.isClosed_close, pool.entries_close⟩

namespace Shut

variable {pool : Pool α κ}

theorem queue (h : pool.Shut) (key : α) : pool.queue key = [] := by
  rw [Pool.queue, Dictionary.find?, h.entries]
  rfl

theorem takeIdle (h : pool.Shut) (valid : κ → Bool) (key : α) :
    (pool.takeIdle valid key).pool = pool := by
  have hfind : pool.queues.find? key = none := by rw [Dictionary.find?, h.entries]; rfl
  simp only [Pool.takeIdle, h.queue key, List.dropWhile_nil, replace, hfind]

theorem giveBack (h : pool.Shut) (valid : κ → Bool) (now : Nat) (key : α) (conn : κ) :
    pool.giveBack valid now key conn = { answer := (), pool := pool, closed := [conn] } := by
  simp only [Pool.giveBack, h.isClosed, Bool.true_or, if_true]

theorem sweep (h : pool.Shut) (valid : κ → Bool) (now : Nat) :
    (pool.sweep valid now).pool = pool := by
  simp only [Pool.sweep, Dictionary.keys, h.entries, List.map_nil, List.foldl_nil]

end Shut

end Pool

end ShardedCache
