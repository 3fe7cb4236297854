import ShardedCache.Proofs.Pool.Conservation

namespace ShardedCache

namespace Pool

variable {α κ ν : Type} [DecidableEq α] {valid : κ → Bool} {key : α} {pool : Pool α κ}

theorem replace_replace (pool : Pool α κ) (key : α) (first last : List (Idle κ)) :
    (pool.replace key first).replace key last = pool.replace key last := by
  cases hfind : pool.queues.find? key with
  | none => simp only [replace, hfind]
  | some idle =>
    simp only [replace, hfind, Dictionary.find?_insert, if_true, Dictionary.insert_insert]

theorem find?_replace (pool : Pool α κ) (key : α) (idle : List (Idle κ)) (other : α) :
    (pool.replace key idle).queues.find? other =
      if other = key then (pool.queues.find? key).map fun _ => idle else pool.queues.find? other := by
  cases hfind : pool.queues.find? key with
  | none =>
    simp only [replace, hfind, Option.map_none]
    split
    · rename_i hkey
      rw [hkey, hfind]
    · rfl
  | some _ => simp only [replace, hfind, Dictionary.find?_insert, Option.map_some]

/-- One turn of the search: the front of the queue is lent if it is usable, and closed otherwise. -/
theorem takeIdle_turn (valid : κ → Bool) (key : α) (pool : Pool α κ) :
    takeIdle valid key pool =
      match pool.pop key with
      | (none, rest) => { answer := none, pool := rest }
      | (some entry, rest) =>
        if valid entry.conn then { answer := some entry.conn, pool := rest }
        else
          { takeIdle valid key rest with
            closed := entry.conn :: (takeIdle valid key rest).closed } := by
  cases hqueue : pool.queue key with
  | nil => simp only [takeIdle, pop, hqueue, List.dropWhile_nil, List.takeWhile_nil, List.map_nil,
      List.head?_nil, List.tail_nil]
  | cons entry rest =>
    have hrest : (pool.replace key rest).queue key = rest := by
      rw [queue_replace (by simp [hqueue]), if_pos rfl]
    by_cases hvalid : valid entry.conn = true
    · simp only [takeIdle, pop, hqueue, hvalid, List.head?_cons, List.tail_cons, List.dropWhile_cons,
        List.takeWhile_cons, Bool.not_true, Bool.false_eq_true, if_false, if_true, List.map_nil]
    · have hinvalid : (!valid entry.conn) = true := by simpa using hvalid
      simp only [pop, hqueue, List.head?_cons, List.tail_cons, hvalid]
      simp only [takeIdle, hqueue, hrest, List.dropWhile_cons, List.takeWhile_cons, hinvalid, if_true,
        List.map_cons, replace_replace]
      cases rest.dropWhile fun entry => !valid entry.conn <;> rfl

structure SameBut (key : α) (before after : Pool α κ) : Prop where
  others : ∀ other, other ≠ key → after.queues.find? other = before.queues.find? other
  lifetime : after.lifetime = before.lifetime
  isClosed : after.isClosed = before.isClosed

theorem sameBut_replace (pool : Pool α κ) (key : α) (idle : List (Idle κ)) :
    SameBut key pool (pool.replace key idle) := by
  refine ⟨?_, lifetime_replace pool key idle, isClosed_replace pool key idle⟩
  intro other hother
  rw [find?_replace, if_neg hother]

theorem find?_of_queue {entry : Idle κ} {rest : List (Idle κ)} (h : pool.queue key = entry :: rest) :
    pool.queues.find? key = some (entry :: rest) := by
  cases hfind : pool.queues.find? key with
  | none => simp [queue, hfind] at h
  | some idle => simpa [queue, hfind] using h

theorem takeIdle_first_usable (valid : κ → Bool) (key : α) (pool : Pool α κ) :
    (∃ before entry rest, pool.queue key = before ++ entry :: rest ∧
        (∀ idle ∈ before, valid idle.conn = false) ∧ valid entry.conn = true ∧
        takeIdle valid key pool =
          { answer := some entry.conn, pool := pool.replace key rest,
            closed := before.map (·.conn) }) ∨
      (∀ idle ∈ pool.queue key, valid idle.conn = false) ∧
        takeIdle valid key pool =
          { answer := none, pool := pool.replace key [],
            closed := (pool.queue key).map (·.conn) } := by
  -- Induction on the queue: a turn that does not end the search takes its front away.
  induction hqueue : pool.queue key generalizing pool with
  | nil =>
    right
    refine ⟨nofun, ?_⟩
    rw [takeIdle_turn]
    simp only [pop, hqueue, List.head?_nil, List.tail_nil, List.map_nil]
  | cons entry rest ih =>
    have hrest : (pool.replace key rest).queue key = rest := by
      rw [queue_replace (by simp [hqueue]), if_pos rfl]
    by_cases hvalid : valid entry.conn = true
    · left
      refine ⟨[], entry, rest, rfl, nofun, hvalid, ?_⟩
      rw [takeIdle_turn]
      simp only [pop, hqueue, List.head?_cons, List.tail_cons, hvalid, if_true, List.map_nil]
    · have hinvalid : valid entry.conn = false := Bool.eq_false_iff.mpr hvalid
      have hturn : takeIdle valid key pool =
          { takeIdle valid key (pool.replace key rest) with
            closed := entry.conn :: (takeIdle valid key (pool.replace key rest)).closed } := by
        rw [takeIdle_turn]
        simp only [pop, hqueue, List.head?_cons, List.tail_cons, hvalid]
        rfl
      have hfront (before : List (Idle κ)) (h : ∀ idle ∈ before, valid idle.conn = false) :
          ∀ idle ∈ entry :: before, valid idle.conn = false := by
        intro idle hidle
        rcases List.mem_cons.mp hidle with rfl | hidle
        · exact hinvalid
        · exact h idle hidle
      rcases ih (pool.replace key rest) hrest with
        ⟨before, found, behind, hsplit, hbefore, hfound, hlater⟩ | ⟨hnone, hlater⟩
      · left
        refine ⟨entry :: before, found, behind, ?_, hfront before hbefore, hfound, ?_⟩
        · rw [hsplit, List.cons_append]
        · rw [hturn, hlater, replace_replace, List.map_cons]
      · right
        refine ⟨hfront rest hnone, ?_⟩
        rw [hturn, hlater, replace_replace, List.map_cons]

def counted (create : ν → Except IoError κ × ν) (world : ν × Nat) : Except IoError κ × (ν × Nat) :=
  ((create world.1).1, (create world.1).2, world.2 + 1)

/-- What a borrower gets, and what it costs: the first usable connection of the queue without asking for a new
one, or a new one, or why there is none, after all that lay in the queue was closed. -/
inductive Lends (valid : κ → Bool) (create : ν → Except IoError κ × ν) (key : α) (pool : Pool α κ)
    (world : ν) (calls : Nat) : Outcome α κ (Except IoError κ) × (ν × Nat) → Prop
  | idle {before rest : List (Idle κ)} {entry : Idle κ} {after : Pool α κ}
      (split : pool.queue key = before ++ entry :: rest)
      (useless : ∀ idle ∈ before, valid idle.conn = false) (usable : valid entry.conn = true)
      (left : after.queues.find? key = some rest) (same : SameBut key pool after) :
      Lends valid create key pool world calls
        ({ answer := .ok entry.conn, pool := after, closed := before.map (·.conn) }, world, calls)
  | new {after : Pool α κ} (useless : ∀ idle ∈ pool.queue key, valid idle.conn = false)
      (left : after.queues.find? key = (pool.queues.find? key).map fun _ => [])
      (same : SameBut key pool after) :
      Lends valid create key pool world calls
        ({ answer := (create world).1, pool := after, closed := (pool.queue key).map (·.conn) },
          (create world).2, calls + 1)

theorem borrow_lends (valid : κ → Bool) (create : ν → Except IoError κ × ν) (key : α)
    (pool : Pool α κ) (world : ν) (calls : Nat) :
    Lends valid create key pool world calls
      (pool.borrow valid (counted create) key (world, calls)) := by
  rcases takeIdle_first_usable valid key pool with
    ⟨before, entry, rest, hsplit, huseless, husable, htaken⟩ | ⟨huseless, htaken⟩
  · have hfind : ∃ idle, pool.queues.find? key = some idle := by
      cases before with
      | nil => exact ⟨_, find?_of_queue hsplit⟩
      | cons first before => exact ⟨_, find?_of_queue hsplit⟩
    obtain ⟨idle, hidle⟩ := hfind
    have hleft : (pool.replace key rest).queues.find? key = some rest := by
      rw [find?_replace, if_pos rfl, hidle, Option.map_some]
    simp only [borrow, htaken]
    exact .idle hsplit huseless husable hleft (sameBut_replace pool key rest)
  · have hleft : (pool.replace key []).queues.find? key =
        (pool.queues.find? key).map fun _ => [] := by
      rw [find?_replace, if_pos rfl]
    simp only [borrow, htaken, counted]
    exact .new huseless hleft (sameBut_replace pool key [])

/-- What becomes of a connection that is handed back: it stands last in its queue if the pool is open and the
connection of use, and is closed otherwise. -/
inductive Returns (valid : κ → Bool) (now : Nat) (key : α) (conn : κ) (pool : Pool α κ) :
    Outcome α κ Unit → Prop
  | kept {after : Pool α κ} (isOpen : pool.isClosed = false) (usable : valid conn = true)
      (left : after.queues.find? key = some (pool.queue key ++ [⟨conn, now⟩]))
      (same : SameBut key pool after) :
      Returns valid now key conn pool { answer := (), pool := after }
  | closed (h : pool.isClosed = true ∨ valid conn = false) :
      Returns valid now key conn pool { answer := (), pool := pool, closed := [conn] }

theorem giveBack_returns (valid : κ → Bool) (now : Nat) (key : α) (conn : κ) (pool : Pool α κ) :
    Returns valid now key conn pool (pool.giveBack valid now key conn) := by
  by_cases hclosed : pool.isClosed = true ∨ valid conn = false
  · have hrefused : (pool.isClosed || !valid conn) = true := by simpa using hclosed
    rw [giveBack, if_pos hrefused]
    exact .closed hclosed
  · obtain ⟨hopen, husable⟩ := not_or.mp hclosed
    have hkept : ¬ (pool.isClosed || !valid conn) = true := by simpa using hclosed
    rw [giveBack, if_neg hkept]
    refine .kept (Bool.eq_false_iff.mpr hopen) (by simpa using husable) ?_ ⟨?_, rfl, rfl⟩
    · rw [push, Dictionary.find?_insert, if_pos rfl]
    · intro other hother
      rw [push, Dictionary.find?_insert, if_neg hother]

def giveAll (valid : κ → Bool) (returns : List (α × Idle κ)) (pool : Pool α κ) : Pool α κ :=
  returns.foldl (fun pool given => (pool.giveBack valid given.2.since given.1 given.2.conn).pool) pool

theorem queue_giveAll (valid : κ → Bool) (returns : List (α × Idle κ)) (pool : Pool α κ) (key : α) :
    (pool.giveAll valid returns).queue key = pool.queue key ++
      if pool.isClosed then []
      else (returns.filter fun given => given.1 = key && valid given.2.conn).map (·.2) := by
  induction returns generalizing pool with
  | nil => simp [giveAll]
  | cons given returns ih =>
    obtain ⟨own, entry⟩ := given
    have hrest := ih (pool.giveBack valid entry.since own entry.conn).pool
    rw [isClosed_giveBack] at hrest
    rw [giveAll, List.foldl_cons, ← giveAll, hrest]
    by_cases hrefused : pool.isClosed = true ∨ valid entry.conn = false
    · have hrefuses : (pool.isClosed || !valid entry.conn) = true := by simpa using hrefused
      have hsame : (pool.giveBack valid entry.since own entry.conn).pool = pool := by
        rw [giveBack, if_pos hrefuses]
      rw [hsame]
      rcases hrefused with hclosed | huseless
      · simp [hclosed]
      · simp [huseless]
    · obtain ⟨hopen, husable⟩ : pool.isClosed = false ∧ valid entry.conn = true := by
        simpa using hrefused
      have hpush : (pool.giveBack valid entry.since own entry.conn).pool = pool.push own entry := by
        simp only [giveBack, hopen, husable, Bool.not_true, Bool.or_self, Bool.false_eq_true, if_false]
      rw [hpush, queue_push]
      by_cases hkey : key = own
      · simp [hkey, hopen, husable]
      · have hother : ¬ own = key := fun heq => hkey heq.symm
        simp [hkey, hother, hopen]

/-- Whatever lies in a pool and whatever is of use of it, a borrower gets the first usable connection of the queue
and nothing else is touched but those before it.  A connection that is handed back stands last or is closed, so that
a queue lists its connections in the order of their return. -/
theorem lends_first_usable (valid : κ → Bool) (create : ν → Except IoError κ × ν) (key : α)
    (pool : Pool α κ) (world : ν) (calls now : Nat) (conn : κ) (returns : List (α × Idle κ)) :
    Lends valid create key pool world calls
        (pool.borrow valid (counted create) key (world, calls)) ∧
      Returns valid now key conn pool (pool.giveBack valid now key conn) ∧
      (pool.giveAll valid returns).queue key = pool.queue key ++
        if pool.isClosed then []
        else (returns.filter fun given => given.1 = key && valid given.2.conn).map (·.2) := by
  have hlent := borrow_lends valid create key pool world calls
  have hreturned := giveBack_returns valid now key conn pool
  exact ⟨hlent, hreturned, queue_giveAll valid returns pool key⟩

end Pool

end ShardedCache
