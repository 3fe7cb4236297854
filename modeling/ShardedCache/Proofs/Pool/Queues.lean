import ShardedCache.Pool

namespace ShardedCache

namespace Pool

variable {α κ ν : Type} [DecidableEq α]

theorem queue_replace {pool : Pool α κ} {key : α} {idle : List (Idle κ)}
    (h : pool.queue key = [] → idle = []) (other : α) :
    (pool.replace key idle).queue other = if other = key then idle else pool.queue other := by
  rw [replace]
  match hfind : pool.queues.find? key with
  | none =>
    have hnil : pool.queue key = [] := by
      rw [queue, hfind]
      rfl
    by_cases hkey : other = key
    · rw [if_pos hkey, hkey, hnil, h hnil]
    · rw [if_neg hkey]
  | some _ =>
    by_cases hkey : other = key
    · simp only [queue, Dictionary.find?_insert, hkey, if_true, Option.getD_some]
    · simp only [queue, Dictionary.find?_insert, hkey, if_false]

@[simp] theorem queue_push (pool : Pool α κ) (key : α) (entry : Idle κ) (other : α) :
    (pool.push key entry).queue other =
      if other = key then pool.queue key ++ [entry] else pool.queue other := by
  by_cases hkey : other = key
  · simp only [push, queue, Dictionary.find?_insert, hkey, if_true, Option.getD_some]
  · simp only [push, queue, Dictionary.find?_insert, hkey, if_false]

theorem queue_restore (pool : Pool α κ) (key : α) (survivors : List (Idle κ)) (other : α) :
    (pool.restore key survivors).queue other =
      if other = key then pool.queue key ++ survivors else pool.queue other := by
  rw [restore]
  by_cases hnone : survivors = []
  · rw [if_pos hnone, hnone, List.append_nil]
    by_cases hempty : pool.queue key = []
    · rw [if_pos hempty]
      by_cases hkey : other = key
      · simp only [queue, Dictionary.find?_erase, hkey, if_true, Option.getD_none] at hempty ⊢
        exact hempty.symm
      · simp only [queue, Dictionary.find?_erase, hkey, if_false]
    · rw [if_neg hempty]
      by_cases hkey : other = key
      · rw [if_pos hkey, hkey]
      · rw [if_neg hkey]
  · rw [if_neg hnone]
    by_cases hkey : other = key
    · simp only [queue, Dictionary.find?_insert, hkey, if_true, Option.getD_some]
    · simp only [queue, Dictionary.find?_insert, hkey, if_false]

/-- Taking a connection splits the queue: those of no use, the one taken, and the rest that stays. -/
theorem takeIdle_cases (valid : κ → Bool) (key : α) (pool : Pool α κ) :
    (∃ before entry rest, pool.queue key = before ++ entry :: rest ∧ valid entry.conn = true ∧
        (takeIdle valid key pool).answer = some entry.conn ∧
        ∀ other, (takeIdle valid key pool).pool.queue other =
          if other = key then rest else pool.queue other) ∨
      (takeIdle valid key pool).answer = none ∧
        ∀ other, (takeIdle valid key pool).pool.queue other =
          if other = key then [] else pool.queue other := by
  have hsplit := List.takeWhile_append_dropWhile (p := fun entry => !valid entry.conn) (l := pool.queue key)
  match hdrop : (pool.queue key).dropWhile fun entry => !valid entry.conn with
  | [] =>
    refine .inr ⟨by simp only [takeIdle, hdrop], ?_⟩
    intro other
    simp only [takeIdle, hdrop]
    exact queue_replace (fun _ => rfl) other
  | entry :: rest =>
    rw [hdrop] at hsplit
    have hvalid : valid entry.conn = true := by
      have hhead := List.head?_dropWhile_not (fun entry => !valid entry.conn) (pool.queue key)
      rw [hdrop] at hhead
      simpa using hhead
    refine .inl ⟨_, entry, rest, hsplit.symm, hvalid, by simp only [takeIdle, hdrop], ?_⟩
    intro other
    simp only [takeIdle, hdrop]
    refine queue_replace (fun hnil => ?_) other
    rw [hnil] at hsplit
    simp at hsplit

theorem borrow_cases (valid : κ → Bool) (create : ν → Except IoError κ × ν) (key : α) (pool : Pool α κ)
    (world : ν) :
    (∃ before entry rest, pool.queue key = before ++ entry :: rest ∧ valid entry.conn = true ∧
        (borrow valid create key pool world).1.answer = .ok entry.conn ∧
        (borrow valid create key pool world).2 = world ∧
        ∀ other, (borrow valid create key pool world).1.pool.queue other =
          if other = key then rest else pool.queue other) ∨
      (borrow valid create key pool world).1.answer = (create world).1 ∧
        (borrow valid create key pool world).2 = (create world).2 ∧
        ∀ other, (borrow valid create key pool world).1.pool.queue other =
          if other = key then [] else pool.queue other := by
  rcases takeIdle_cases valid key pool with
    ⟨before, entry, rest, hqueue, hvalid, hanswer, hafter⟩ | ⟨hanswer, hafter⟩
  · exact .inl ⟨before, entry, rest, hqueue, hvalid, by simp only [borrow, hanswer],
      by simp only [borrow, hanswer], by simpa only [borrow, hanswer] using hafter⟩
  · exact .inr ⟨by simp only [borrow, hanswer], by simp only [borrow, hanswer],
      by simpa only [borrow, hanswer] using hafter⟩

theorem queue_takeIdle_sublist (valid : κ → Bool) (key : α) (pool : Pool α κ) (other : α) :
    ((takeIdle valid key pool).pool.queue other).Sublist (pool.queue other) := by
  rcases takeIdle_cases valid key pool with ⟨before, entry, rest, hqueue, -, -, hafter⟩ | ⟨-, hafter⟩
  · rw [hafter]
    split
    · rename_i hother
      rw [hother, hqueue]
      exact (List.sublist_cons_self entry rest).trans (List.sublist_append_right before _)
    · exact List.Sublist.refl _
  · rw [hafter]
    split
    · exact List.nil_sublist _
    · exact List.Sublist.refl _

theorem pool_borrow (valid : κ → Bool) (create : ν → Except IoError κ × ν) (key : α)
    (pool : Pool α κ) (world : ν) :
    (borrow valid create key pool world).1.pool = (takeIdle valid key pool).pool := by
  rw [borrow]
  split <;> rfl

theorem queue_borrow_sublist (valid : κ → Bool) (create : ν → Except IoError κ × ν) (key : α)
    (pool : Pool α κ) (world : ν) (other : α) :
    ((borrow valid create key pool world).1.pool.queue other).Sublist (pool.queue other) := by
  rw [pool_borrow]
  exact queue_takeIdle_sublist valid key pool other

theorem giveBack_cases (valid : κ → Bool) (now : Nat) (key : α) (conn : κ) (pool : Pool α κ) :
    (valid conn = true ∧ ∀ other, (giveBack valid now key conn pool).pool.queue other =
        if other = key then pool.queue key ++ [⟨conn, now⟩] else pool.queue other) ∨
      (giveBack valid now key conn pool).pool = pool := by
  rw [giveBack]
  by_cases hclosed : (pool.isClosed || !valid conn) = true
  · rw [if_pos hclosed]
    exact .inr rfl
  · rw [if_neg hclosed]
    have hvalid : valid conn = true := by
      cases hconn : valid conn <;> simp [hconn] at hclosed ⊢
    exact .inl ⟨hvalid, fun other => queue_push pool key ⟨conn, now⟩ other⟩

theorem mem_queue_giveBack {valid : κ → Bool} {now : Nat} {key other : α} {conn : κ} {pool : Pool α κ}
    {entry : Idle κ} (h : entry ∈ (giveBack valid now key conn pool).pool.queue other) :
    entry ∈ pool.queue other ∨ other = key ∧ entry = ⟨conn, now⟩ := by
  rcases giveBack_cases valid now key conn pool with ⟨-, hafter⟩ | hafter
  · rw [hafter] at h
    by_cases hother : other = key
    · rw [if_pos hother] at h
      rcases List.mem_append.mp h with h | h
      · exact .inl (by rw [hother]; exact h)
      · exact .inr ⟨hother, List.mem_singleton.mp h⟩
    · rw [if_neg hother] at h
      exact .inl h
  · rw [hafter] at h
    exact .inl h

theorem giveBack_of_not_valid {valid : κ → Bool} {conn : κ} (h : valid conn = false) (now : Nat)
    (key : α) (pool : Pool α κ) : (giveBack valid now key conn pool).pool = pool := by
  simp only [giveBack, h, Bool.not_false, Bool.or_true, if_true]

theorem queue_sweepKey (valid : κ → Bool) (now : Nat) (pool : Pool α κ) (key other : α) :
    (pool.sweepKey valid now key).pool.queue other =
      if other = key then (pool.queue key).filter (survives valid pool.lifetime now)
      else pool.queue other := by
  have hempty (other : α) : (pool.replace key []).queue other =
      if other = key then [] else pool.queue other :=
    queue_replace (fun _ => rfl) other
  have hrestore := queue_restore (pool.replace key []) key
    ((pool.queue key).filter (survives valid pool.lifetime now)) other
  simp only [sweepKey, takeAll, List.partition_eq_filter_filter, hrestore, hempty]
  by_cases hkey : other = key
  · simp only [hkey, if_true, List.nil_append]
  · simp only [hkey, if_false]

@[simp] theorem lifetime_replace (pool : Pool α κ) (key : α) (idle : List (Idle κ)) :
    (pool.replace key idle).lifetime = pool.lifetime := by
  rw [replace]
  split <;> rfl

@[simp] theorem lifetime_restore (pool : Pool α κ) (key : α) (survivors : List (Idle κ)) :
    (pool.restore key survivors).lifetime = pool.lifetime := by
  rw [restore]
  by_cases hnone : survivors = []
  · rw [if_pos hnone]
    split <;> rfl
  · rw [if_neg hnone]

theorem lifetime_sweepKey (valid : κ → Bool) (now : Nat) (pool : Pool α κ) (key : α) :
    (pool.sweepKey valid now key).pool.lifetime = pool.lifetime := by
  simp only [sweepKey, takeAll, lifetime_restore, lifetime_replace]

/-- A sweep keeps the survivors of every queue, in their order. -/
theorem queue_sweep (valid : κ → Bool) (now : Nat) (pool : Pool α κ) (other : α) :
    (pool.sweep valid now).pool.queue other =
      (pool.queue other).filter (survives valid pool.lifetime now) := by
  -- A key that is swept twice loses nothing the second time.
  have hfold (keys : List α) (sofar : Outcome α κ Nat) :
      (keys.foldl
          (fun (sofar : Outcome α κ Nat) key =>
            let swept := sofar.pool.sweepKey valid now key
            { answer := sofar.answer + swept.answer
              pool := swept.pool
              closed := sofar.closed ++ swept.closed }) sofar).pool.queue other =
        if other ∈ keys then
          (sofar.pool.queue other).filter (survives valid sofar.pool.lifetime now)
        else sofar.pool.queue other := by
    induction keys generalizing sofar with
    | nil => rfl
    | cons key keys ih =>
      rw [List.foldl_cons, ih]
      simp only [lifetime_sweepKey, queue_sweepKey]
      by_cases hkey : other = key
      · simp [hkey]
      · simp [hkey]
  rw [sweep, hfold]
  split
  · rfl
  · rename_i hkey
    rw [queue, Dictionary.find?_of_not_mem_keys hkey]
    rfl

end Pool

end ShardedCache
