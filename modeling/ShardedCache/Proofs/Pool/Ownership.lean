import ShardedCache.Pool.Custody
import ShardedCache.Proofs.Pool.Conservation

/-! Each connection that was created for a pool lies in one queue, is held by one borrower, or was closed once
(`Custody.Accounted`).  One dealing keeps to that (`Accounted.deal`), and so does any row of them. -/

namespace ShardedCache

inductive Dealing (α : Type) where
  | borrow (key : α)
  | giveBack (now conn : Nat) (key : Option α)
  | invalidate (conn : Nat)
  /-- A connection dies, wherever it is.  An operation asks each connection at most once whether it is valid, so one
  that dies meanwhile died before it or dies after it. -/
  | kill (conn : Nat)
  | refuse (refusal : Option IoError)
  | sweep (now : Nat)
  | close

namespace Custody

variable {α : Type}

def new (lifetime : Nat) : Custody α :=
  { pool := { lifetime := lifetime } }

def onLoan (custody : Custody α) : List Nat :=
  custody.held.map (·.1)

theorem perm_moved {idle later held gone : List Nat} (onLoan closed lent returned : List Nat)
    (hidle : (returned ++ idle).Perm (lent ++ (later ++ gone)))
    (hloan : (returned ++ held).Perm (lent ++ onLoan)) :
    (later ++ held ++ (closed ++ gone)).Perm (idle ++ onLoan ++ closed) := by
  rw [List.perm_iff_count] at hidle hloan ⊢
  intro conn
  have hone := hidle conn
  have htwo := hloan conn
  simp only [List.count_append] at hone htwo ⊢
  omega

theorem onLoan_perm {custody : Custody α} {conn : Nat} (h : custody.onLoan.Nodup)
    {own : α} (hheld : custody.held.lookup conn = some own) :
    custody.onLoan.Perm (conn :: (custody.held.filter (·.1 ≠ conn)).map (·.1)) := by
  have hdistinct : custody.held.Pairwise (·.1 ≠ ·.1) := List.pairwise_map.mp h
  exact (Dictionary.perm_cons_filter_of_lookup hdistinct hheld).map (·.1)

/-- Each connection that was created is in one place, and nothing else is anywhere.  A pool that was closed has
no queue. -/
structure Accounted (custody : Custody α) : Prop where
  placed : (custody.pool.idle ++ custody.onLoan ++ custody.closed).Perm (List.range custody.created)
  shut : custody.pool.isClosed = true → custody.pool.Shut

namespace Accounted

variable {custody : Custody α} {conn : Nat}

theorem new (lifetime : Nat) : (new lifetime : Custody α).Accounted :=
  ⟨List.Perm.refl _, nofun⟩

theorem nodup (h : custody.Accounted) :
    (custody.pool.idle ++ custody.onLoan ++ custody.closed).Nodup :=
  h.placed.nodup_iff.mpr List.nodup_range

theorem onLoan_nodup (h : custody.Accounted) : custody.onLoan.Nodup :=
  (List.nodup_append.mp (List.nodup_append.mp h.nodup).1).2.1

theorem kill (h : custody.Accounted) (conn : Nat) : (custody.kill conn).Accounted :=
  ⟨h.placed, h.shut⟩

end Accounted

variable [DecidableEq α] {custody : Custody α} {key : α} {conn : Nat}

/-- A connection that is not on loan can be neither returned nor invalidated. -/
def deal (custody : Custody α) : Dealing α → Custody α
  | .borrow key => (custody.borrow key).2
  | .giveBack now conn key => (custody.giveBack now conn key).getD custody
  | .invalidate conn => (custody.invalidate conn).getD custody
  | .kill conn => custody.kill conn
  | .refuse refusal => { custody with refusal := refusal }
  | .sweep now => (custody.sweep now).2
  | .close => custody.close

def dealt (lifetime : Nat) (dealings : List (Dealing α)) : Custody α :=
  dealings.foldl deal (new lifetime)

theorem borrow_of_some (h : (Pool.takeIdle custody.valid key custody.pool).answer = some conn) :
    custody.borrow key =
      (.ok conn, { custody.absorb (Pool.takeIdle custody.valid key custody.pool) with
        held := (conn, key) :: custody.held }) := by
  simp only [borrow, Pool.borrow, h, absorb]

theorem borrow_of_none (h : (Pool.takeIdle custody.valid key custody.pool).answer = none) :
    custody.borrow key =
      match custody.refusal with
      | some error => (.error error, custody.absorb (Pool.takeIdle custody.valid key custody.pool))
      | none =>
        (.ok custody.created, { custody.absorb (Pool.takeIdle custody.valid key custody.pool) with
          created := custody.created + 1
          held := (custody.created, key) :: custody.held }) := by
  cases hrefusal : custody.refusal <;> simp only [borrow, Pool.borrow, h, absorb, create, hrefusal]

theorem giveBack_of_lookup {own : α} (h : custody.held.lookup conn = some own) (now : Nat)
    (key : Option α) :
    custody.giveBack now conn key =
      some { custody.absorb (Pool.giveBack custody.valid now (key.getD own) conn custody.pool) with
        held := custody.held.filter (·.1 ≠ conn) } := by
  simp only [giveBack, h, Option.map_some]

theorem placed_borrow (elsewhere : List Nat)
    (h : (custody.pool.idle ++ custody.onLoan ++ (elsewhere ++ custody.closed)).Perm
      (List.range custody.created)) (key : α) :
    ((custody.borrow key).2.pool.idle ++ (custody.borrow key).2.onLoan ++
        (elsewhere ++ (custody.borrow key).2.closed)).Perm
      (List.range (custody.borrow key).2.created) := by
  have hidle := Pool.idle_takeIdle custody.valid key custody.pool
  cases hanswer : (Pool.takeIdle custody.valid key custody.pool).answer with
  | some conn =>
    rw [hanswer] at hidle
    rw [borrow_of_some hanswer]
    have hmoved := perm_moved custody.onLoan (elsewhere ++ custody.closed) [conn] [] hidle (.refl _)
    rw [List.append_assoc elsewhere] at hmoved
    exact hmoved.trans h
  | none =>
    rw [hanswer] at hidle
    rw [borrow_of_none hanswer]
    have hmoved := perm_moved custody.onLoan (elsewhere ++ custody.closed) [] [] hidle (.refl _)
    rw [List.append_assoc elsewhere] at hmoved
    cases hrefusal : custody.refusal with
    | some error => exact hmoved.trans h
    | none =>
      show List.Perm _ (List.range (custody.created + 1))
      rw [List.range_succ]
      have hothers := (hmoved.trans h).append_right [custody.created]
      apply List.Perm.trans _ hothers
      rw [List.perm_iff_count]
      intro conn
      simp only [onLoan, absorb, List.map_cons, List.count_append, List.count_cons, List.count_nil]
      omega

theorem pool_borrow (custody : Custody α) (key : α) :
    (custody.borrow key).2.pool = (Pool.takeIdle custody.valid key custody.pool).pool := by
  rw [← Pool.pool_borrow custody.valid (create custody.refusal) key custody.pool custody.created]
  cases hanswer : (Pool.borrow custody.valid (create custody.refusal) key custody.pool
    custody.created).1.answer <;> simp only [borrow, hanswer, absorb]

@[simp] theorem isClosed_borrow (custody : Custody α) (key : α) :
    (custody.borrow key).2.pool.isClosed = custody.pool.isClosed := by
  rw [pool_borrow, Pool.isClosed_takeIdle]

namespace Accounted

theorem borrow (h : custody.Accounted) (key : α) : (custody.borrow key).2.Accounted := by
  constructor
  · exact placed_borrow [] h.placed key
  · intro hclosed
    have hshut : custody.pool.Shut := h.shut ((isClosed_borrow custody key).symm.trans hclosed)
    rw [pool_borrow, hshut.takeIdle]
    exact hshut

theorem giveBack (h : custody.Accounted) {now : Nat} {key : Option α} {after : Custody α}
    (hafter : custody.giveBack now conn key = some after) : after.Accounted := by
  cases hheld : custody.held.lookup conn with
  | none => simp [Custody.giveBack, hheld] at hafter
  | some own =>
    rw [giveBack_of_lookup hheld] at hafter
    obtain rfl := Option.some.inj hafter
    constructor
    · have hidle := Pool.idle_giveBack custody.valid now (key.getD own) conn custody.pool
      have hmoved := perm_moved custody.onLoan custody.closed [] [conn] hidle
        (onLoan_perm h.onLoan_nodup hheld).symm
      exact hmoved.trans h.placed
    · intro hclosed
      have hbefore : custody.pool.isClosed = true := (Pool.isClosed_giveBack ..).symm.trans hclosed
      simp only [absorb, (h.shut hbefore).giveBack]
      exact h.shut hbefore

theorem sweep (h : custody.Accounted) (now : Nat) : (custody.sweep now).2.Accounted := by
  constructor
  · have hidle := Pool.idle_sweep custody.valid now custody.pool
    have hmoved := perm_moved custody.onLoan custody.closed [] [] hidle (List.Perm.refl _)
    exact hmoved.trans h.placed
  · intro hclosed
    have hbefore : custody.pool.isClosed = true := (Pool.isClosed_sweep ..).symm.trans hclosed
    simp only [Custody.sweep, absorb, (h.shut hbefore).sweep]
    exact h.shut hbefore

theorem close (h : custody.Accounted) : custody.close.Accounted := by
  refine ⟨?_, fun _ => Pool.shut_close custody.pool⟩
  have hnone : custody.pool.close.pool.idle = [] := Pool.idle_of_entries custody.pool.entries_close
  have hidle : custody.pool.idle.Perm (custody.pool.close.pool.idle ++ custody.pool.close.closed) := by
    rw [hnone, List.nil_append]
    exact Pool.idle_close custody.pool
  have hmoved := perm_moved custody.onLoan custody.closed [] [] hidle (List.Perm.refl _)
  exact hmoved.trans h.placed

theorem deal (h : custody.Accounted) (dealing : Dealing α) : (custody.deal dealing).Accounted := by
  cases dealing with
  | borrow key => exact h.borrow key
  | giveBack now conn key =>
    cases hafter : custody.giveBack now conn key with
    | none => simpa only [Custody.deal, hafter, Option.getD_none] using h
    | some after => simpa only [Custody.deal, hafter, Option.getD_some] using h.giveBack hafter
  | invalidate conn =>
    cases hheld : custody.held.lookup conn with
    | none => simpa only [Custody.deal, invalidate, hheld, Option.map_none, Option.getD_none] using h
    | some own =>
      simpa only [Custody.deal, invalidate, hheld, Option.map_some, Option.getD_some] using h.kill conn
  | kill conn => exact h.kill conn
  | refuse refusal => exact ⟨h.placed, h.shut⟩
  | sweep now => exact h.sweep now
  | close => exact h.close

theorem dealt (lifetime : Nat) (dealings : List (Dealing α)) :
    (dealt lifetime dealings).Accounted := by
  have hall (dealings : List (Dealing α)) (custody : Custody α) (h : custody.Accounted) :
      (dealings.foldl Custody.deal custody).Accounted := by
    induction dealings generalizing custody with
    | nil => exact h
    | cons dealing dealings ih => exact ih (custody.deal dealing) (h.deal dealing)
  exact hall dealings _ (new lifetime)

end Accounted

theorem isClosed_deal (dealing : Dealing α) (h : custody.pool.isClosed = true) :
    (custody.deal dealing).pool.isClosed = true := by
  cases dealing with
  | borrow key => exact (isClosed_borrow custody key).trans h
  | giveBack now conn key =>
    cases hheld : custody.held.lookup conn with
    | none => simpa only [deal, giveBack, hheld, Option.map_none, Option.getD_none] using h
    | some own =>
      rw [deal, giveBack_of_lookup hheld]
      exact (Pool.isClosed_giveBack ..).trans h
  | invalidate conn =>
    cases hheld : custody.held.lookup conn with
    | none => simpa only [deal, invalidate, hheld, Option.map_none, Option.getD_none] using h
    | some own =>
      simp only [deal, invalidate, hheld, Option.map_some, Option.getD_some]
      exact h
  | kill conn => exact h
  | refuse refusal => exact h
  | sweep now => exact (Pool.isClosed_sweep ..).trans h
  | close => exact Pool.isClosed_close custody.pool

theorem shut_dealt {lifetime : Nat} {dealings : List (Dealing α)} (h : .close ∈ dealings) :
    (dealt lifetime dealings).pool.Shut := by
  apply (Accounted.dealt lifetime dealings).shut
  have hkept (dealings : List (Dealing α)) (custody : Custody α) (h : custody.pool.isClosed = true) :
      (dealings.foldl deal custody).pool.isClosed = true := by
    induction dealings generalizing custody with
    | nil => exact h
    | cons dealing dealings ih => exact ih _ (isClosed_deal dealing h)
  obtain ⟨before, after, rfl⟩ := List.append_of_mem h
  rw [dealt, List.foldl_append, List.foldl_cons]
  exact hkept after _ (Pool.isClosed_close _)

theorem borrow_cases {after : Custody α} (h : custody.borrow key = (.ok conn, after)) :
    (conn = custody.created ∧ after.created = custody.created + 1 ∨
        conn ∈ (custody.pool.queue key).map (·.conn) ∧ custody.valid conn = true) ∧
      after.onLoan = conn :: custody.onLoan := by
  rcases Pool.takeIdle_cases custody.valid key custody.pool with
    ⟨before, entry, rest, hqueue, hvalid, hanswer, -⟩ | ⟨hanswer, -⟩
  · rw [borrow_of_some hanswer, Prod.mk.injEq, Except.ok.injEq] at h
    obtain ⟨rfl, rfl⟩ := h
    refine ⟨.inr ⟨?_, hvalid⟩, rfl⟩
    rw [hqueue]
    exact List.mem_map.mpr ⟨entry, List.mem_append_right before List.mem_cons_self, rfl⟩
  · rw [borrow_of_none hanswer] at h
    cases hrefusal : custody.refusal with
    | some error =>
      rw [hrefusal] at h
      cases h
    | none =>
      rw [hrefusal, Prod.mk.injEq, Except.ok.injEq] at h
      obtain ⟨rfl, rfl⟩ := h
      exact ⟨.inl ⟨rfl, rfl⟩, rfl⟩

/-- What a borrower gets is new, or lay in the queue of its key and is valid.  Nobody else holds it, and it is
not closed. -/
theorem Accounted.borrowed (h : custody.Accounted) {after : Custody α}
    (hborrow : custody.borrow key = (.ok conn, after)) :
    (conn = custody.created ∧ after.created = custody.created + 1 ∨
        conn ∈ (custody.pool.queue key).map (·.conn) ∧ custody.valid conn = true) ∧
      after.onLoan = conn :: custody.onLoan ∧ conn ∉ custody.onLoan ∧ conn ∉ after.closed := by
  obtain ⟨hfrom, hloan⟩ := borrow_cases hborrow
  have hafter : after.Accounted := by
    have hall := h.borrow key
    rwa [hborrow] at hall
  -- Since each connection is in one place, it is enough that this one is on loan now.
  have hnodup := hafter.nodup
  rw [hloan] at hnodup
  obtain ⟨hplaced, -, hclosed⟩ := List.nodup_append.mp hnodup
  refine ⟨hfrom, hloan, ?_, ?_⟩
  · have hcons := (List.nodup_append.mp hplaced).2.1
    exact (List.nodup_cons.mp hcons).1
  · intro hmem
    exact hclosed conn (List.mem_append_right _ List.mem_cons_self) conn hmem rfl

theorem giveBack_of_shut (h : custody.pool.Shut) (hconn : conn ∈ custody.onLoan) (now : Nat)
    (key : Option α) :
    ∃ after, custody.giveBack now conn key = some after ∧ after.pool = custody.pool ∧
      after.closed = custody.closed ++ [conn] := by
  cases hheld : custody.held.lookup conn with
  | none =>
    obtain ⟨entry, hentry, rfl⟩ := List.mem_map.mp hconn
    have hne := List.lookup_eq_none_iff.mp hheld entry hentry
    simp at hne
  | some own =>
    refine ⟨_, giveBack_of_lookup hheld now key, ?_, ?_⟩
    · simp only [absorb, h.giveBack]
    · simp only [absorb, h.giveBack]

/-- Whatever happened to a pool since it was new:

* each connection that was created is in one place, that is idle in one queue, on loan to one borrower, or closed
  once, and there are no others;
* a connection that is borrowed is a new one, or was idle under its key and is valid; nobody else holds it, and it
  is not closed;
* once the pool was closed it has no queue, and a connection that comes back is closed at once;
* giving the pool up closes every connection but those on loan. -/
theorem connections_accounted_for (lifetime : Nat) (dealings : List (Dealing α)) :
    let custody := dealt lifetime dealings
    (custody.pool.idle ++ custody.onLoan ++ custody.closed).Perm (List.range custody.created) ∧
      (∀ key conn after, custody.borrow key = (.ok conn, after) →
        (conn = custody.created ∧ after.created = custody.created + 1 ∨
            conn ∈ (custody.pool.queue key).map (·.conn) ∧ custody.valid conn = true) ∧
          after.onLoan = conn :: custody.onLoan ∧ conn ∉ custody.onLoan ∧ conn ∉ after.closed) ∧
      (.close ∈ dealings →
        custody.pool.keyCount = 0 ∧ custody.pool.totalIdle = 0 ∧
          ∀ conn ∈ custody.onLoan, ∀ now key, ∃ after, custody.giveBack now conn key = some after ∧
            after.pool = custody.pool ∧ after.closed = custody.closed ++ [conn]) ∧
      custody.close.pool.keyCount = 0 ∧
      (custody.onLoan ++ custody.close.closed).Perm (List.range custody.created) := by
  intro custody
  have h : custody.Accounted := Accounted.dealt lifetime dealings
  refine ⟨h.placed, fun key conn after hborrow => h.borrowed hborrow, ?_, ?_, ?_⟩
  · intro hclose
    have hshut : custody.pool.Shut := shut_dealt hclose
    refine ⟨?_, ?_, fun conn hconn now key => giveBack_of_shut hshut hconn now key⟩
    · rw [Pool.keyCount, Dictionary.size, hshut.entries]
      rfl
    · rw [Pool.totalIdle, Pool.everyIdle, hshut.entries]
      rfl
  · rw [Pool.keyCount, Dictionary.size, close, absorb, custody.pool.entries_close]
    rfl
  · have hplaced := h.close.placed
    have hnone : custody.close.pool.idle = [] := Pool.idle_of_entries custody.pool.entries_close
    rwa [hnone] at hplaced

/-- One connection comes back under another key, is lent from there, and returns once the pool was closed; the
other one died on loan. -/
example :
    let custody := dealt 60 [.borrow 'a', .borrow 'a', .giveBack 5 0 (some 'b'), .kill 1,
      .giveBack 6 1 none, .borrow 'b', .close, .giveBack 7 0 none]
    custody.created = 2 ∧ custody.onLoan = [] ∧ custody.closed = [1, 0] := by decide

end Custody

end ShardedCache
