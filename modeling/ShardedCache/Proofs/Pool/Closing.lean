import ShardedCache.Proofs.Pool.Traffic

namespace ShardedCache

namespace Traffic

variable {α : Type} [DecidableEq α] {traffic : Traffic α} {late : Nat → Prop}

theorem start_cases (traffic : Traffic α) (dealing : Dealing α) :
    dealing = .close ∨
      (traffic.start dealing).custody.pool.isClosed = traffic.custody.pool.isClosed ∧
        (∀ key, ((traffic.start dealing).custody.pool.queue key).Sublist (traffic.custody.pool.queue key)) ∧
        traffic.calls <+: (traffic.start dealing).calls ∧
        (traffic.custody.pool.isClosed = true → (traffic.start dealing).inHand = traffic.inHand) := by
  cases dealing with
  | close => exact .inl rfl
  | borrow key =>
    refine .inr ⟨Custody.isClosed_borrow .., ?_, List.prefix_rfl, fun _ => rfl⟩
    intro other
    show ((traffic.custody.borrow key).2.pool.queue other).Sublist _
    rw [Custody.pool_borrow]
    exact Pool.queue_takeIdle_sublist ..
  | giveBack now conn key =>
    right
    match hheld : traffic.custody.held.lookup conn with
    | none =>
      simp only [start, hheld]
      exact ⟨trivial, fun _ => .refl _, List.prefix_rfl, fun _ => trivial⟩
    | some own =>
      simp only [start, hheld]
      split
      · exact ⟨rfl, fun _ => .refl _, List.prefix_rfl, fun _ => rfl⟩
      · rename_i hpassed
        refine ⟨rfl, fun _ => .refl _, List.prefix_append .., ?_⟩
        intro hclosed
        simp [hclosed] at hpassed
  | invalidate conn =>
    right
    rcases traffic.start_invalidate conn with hsame | hsame
    · rw [hsame]
      exact ⟨rfl, fun _ => .refl _, List.prefix_rfl, fun _ => rfl⟩
    · rw [hsame]
      exact ⟨rfl, fun _ => .refl _, List.prefix_rfl, fun _ => rfl⟩
  | kill conn => exact .inr ⟨rfl, fun _ => .refl _, List.prefix_rfl, fun _ => rfl⟩
  | refuse refusal => exact .inr ⟨rfl, fun _ => .refl _, List.prefix_rfl, fun _ => rfl⟩
  | sweep now =>
    refine .inr ⟨rfl, fun _ => .refl _, List.prefix_append .., fun _ => ?_⟩
    show (traffic.calls ++ [_]).flatMap Call.inHand = traffic.inHand
    rw [List.flatMap_append]
    exact List.append_nil _

/-- What a closed pool holds is late, or is about to be removed, and what the calls have in hand is late. -/
structure Drained (late : Nat → Prop) (traffic : Traffic α) : Prop where
  queued : ∀ key, ∀ entry ∈ traffic.custody.pool.queue key,
    late entry.conn ∨ ∃ call ∈ traffic.calls, call.Discards key
  inHand : ∀ conn ∈ traffic.inHand, late conn

omit [DecidableEq α] in
theorem isClosing_of_mem {call : Call α} {key : α} (h : call ∈ traffic.calls) (hkey : call.Discards key) :
    traffic.isClosing = true :=
  List.any_eq_true.mpr ⟨call, h, Call.isClosing_of_discards hkey⟩

namespace Drained

theorem start (h : traffic.custody.pool.isClosed = true → Drained late traffic) (dealing : Dealing α)
    (hlate : (traffic.start dealing).isClosing = true → ∀ conn ∈ (traffic.start dealing).inHand, late conn)
    (hclosed : (traffic.start dealing).custody.pool.isClosed = true) :
    Drained late (traffic.start dealing) := by
  rcases traffic.start_cases dealing with rfl | ⟨hsame, hqueue, hcalls, hhand⟩
  · have hmem : Call.closing ∈ (traffic.start .close).calls :=
      List.mem_append_right _ List.mem_cons_self
    constructor
    · intro key entry _
      exact .inr ⟨.closing, hmem, trivial⟩
    · exact hlate (List.any_eq_true.mpr ⟨.closing, hmem, rfl⟩)
  · have hbefore : traffic.custody.pool.isClosed = true := hsame.symm.trans hclosed
    constructor
    · intro key entry hentry
      rcases (h hbefore).queued key entry ((hqueue key).subset hentry) with hentry | ⟨call, hcall, hkey⟩
      · exact .inl hentry
      · exact .inr ⟨call, hcalls.subset hcall, hkey⟩
    · rw [hhand hbefore]
      exact (h hbefore).inHand

theorem proceed (h : traffic.custody.pool.isClosed = true → Drained late traffic) (place : Nat)
    (hlate : (traffic.proceed place).isClosing = true → ∀ conn ∈ (traffic.proceed place).inHand, late conn)
    (hclosed : (traffic.proceed place).custody.pool.isClosed = true) :
    Drained late (traffic.proceed place) := by
  rcases traffic.proceed_cases place with hsame | ⟨front, call, back, after, left, hcalls, heffect, hafter⟩
  · rw [hsame] at hclosed ⊢
    exact h hclosed
  rw [hafter] at hlate hclosed ⊢
  have hbefore : Drained late traffic := h (heffect.isClosed.symm.trans hclosed)
  have hhand {other : Call α} (hother : other ∈ front ++ call :: back) {conn : Nat}
      (hconn : conn ∈ other.inHand) : late conn := by
    apply hbefore.inHand
    rw [← hcalls] at hother
    exact List.mem_flatMap.mpr ⟨other, hother, hconn⟩
  have hcall : call ∈ front ++ call :: back := List.mem_append_right _ List.mem_cons_self
  -- Whatever lay in the pool is late, or some call will remove its queue: another one, which is still there, or the
  -- one that took the step.
  have hqueued {key : α} {entry : Idle Nat} (hentry : entry ∈ traffic.custody.pool.queue key) :
      late entry.conn ∨ (∃ other ∈ front ++ left.toList ++ back, other.Discards key) ∨
        call.Discards key := by
    rcases hbefore.queued key entry hentry with hdone | ⟨other, hother, hkey⟩
    · exact .inl hdone
    · rw [hcalls, List.mem_append, List.mem_cons] at hother
      rcases hother with hother | rfl | hother
      · exact .inr (.inl ⟨other, List.mem_append_left _ (List.mem_append_left _ hother), hkey⟩)
      · exact .inr (.inr hkey)
      · exact .inr (.inl ⟨other, List.mem_append_right _ hother, hkey⟩)
  constructor
  · intro key entry hentry
    rcases heffect.queued key entry hentry with hentry' | hconn
    · rcases hqueued hentry' with hdone | hother | hkey
      · exact .inl hdone
      · exact .inr hother
      · rcases heffect.discards key hkey with hnone | ⟨rest, hrest, hkey⟩
        · rw [hnone] at hentry
          cases hentry
        · have hmem : rest ∈ left.toList := Option.mem_toList.mpr hrest
          exact .inr ⟨rest, List.mem_append_left _ (List.mem_append_right _ hmem), hkey⟩
    · exact .inl (hhand hcall hconn)
  · intro conn hconn
    obtain ⟨other, hother, hconn'⟩ := List.mem_flatMap.mp hconn
    rw [List.mem_append, List.mem_append] at hother
    rcases hother with (hother | hother) | hother
    · exact hhand (List.mem_append_left _ hother) hconn'
    · have hleft : conn ∈ left.toList.flatMap Call.inHand := List.mem_flatMap.mpr ⟨other, hother, hconn'⟩
      rcases heffect.taken conn hleft with hconn' | ⟨key, entry, hentry, rfl⟩
      · exact hhand hcall hconn'
      · rcases hqueued hentry with hdone | ⟨remover, hmem, hkey⟩ | hkey
        · exact hdone
        · exact hlate (isClosing_of_mem hmem hkey) _ hconn
        · rw [heffect.empty (Call.isClosing_of_discards hkey)] at hleft
          cases hleft
    · exact hhand (List.mem_append_right _ (List.mem_cons_of_mem _ hother)) hconn'

theorem step (h : traffic.custody.pool.isClosed = true → Drained late traffic) (turn : Turn α)
    (hlate : (traffic.step turn).isClosing = true → ∀ conn ∈ (traffic.step turn).inHand, late conn)
    (hclosed : (traffic.step turn).custody.pool.isClosed = true) : Drained late (traffic.step turn) := by
  cases turn with
  | start dealing => exact start h dealing hlate hclosed
  | proceed place => exact proceed h place hlate hclosed

end Drained

/-- At some time a closing was under way while a return or a sweep had the connection in hand. -/
def InHandWhileClosing (lifetime : Nat) (turns : List (Turn α)) (conn : Nat) : Prop :=
  ∃ sofar, sofar <+: turns ∧ (run sofar (new lifetime)).isClosing = true ∧
    conn ∈ (run sofar (new lifetime)).inHand

theorem drained_run (lifetime : Nat) (turns : List (Turn α))
    (hclosed : (run turns (new lifetime)).custody.pool.isClosed = true) :
    Drained (InHandWhileClosing lifetime turns) (run turns (new lifetime)) := by
  -- The turns that were taken so far grow, while what counts as late is told by all of them.
  have hall (rest done : List (Turn α)) (hturns : done ++ rest = turns)
      (hdone : (run done (new lifetime)).custody.pool.isClosed = true →
        Drained (InHandWhileClosing lifetime turns) (run done (new lifetime))) :
      Drained (InHandWhileClosing lifetime turns) (run turns (new lifetime)) := by
    induction rest generalizing done with
    | nil =>
      rw [List.append_nil] at hturns
      rw [hturns] at hdone
      exact hdone hclosed
    | cons turn rest ih =>
      have hnext : done ++ [turn] ++ rest = turns := by rw [List.append_assoc, List.singleton_append, hturns]
      apply ih (done ++ [turn]) hnext
      have hlate : (run (done ++ [turn]) (new lifetime)).isClosing = true →
          ∀ conn ∈ (run (done ++ [turn]) (new lifetime)).inHand, InHandWhileClosing lifetime turns conn :=
        fun hclosing conn hconn => ⟨done ++ [turn], ⟨rest, hnext⟩, hclosing, hconn⟩
      rw [run, List.foldl_append, List.foldl_cons, List.foldl_nil] at hlate ⊢
      exact Drained.step hdone turn hlate
  apply hall turns [] rfl
  intro hshut
  cases hshut

/-- In whatever order returns, sweeps, closings and all else take their steps:

* each connection that was created is idle, on loan, in the hand of a call or closed, and is so once;
* once the pool is closed and no closing is under way, what lies in it was in the hand of a return or a sweep
  while it was being closed;
* if there was no such connection, the pool is empty and stays so: all that is neither on loan nor in hand is
  closed, and a borrower gets a new connection. -/
theorem queued_after_closing (lifetime : Nat) (turns : List (Turn α)) :
    let traffic : Traffic α := run turns (new lifetime)
    (traffic.custody.pool.idle ++ traffic.custody.onLoan ++ (traffic.inHand ++ traffic.custody.closed)).Perm
        (List.range traffic.custody.created) ∧
      (traffic.custody.pool.isClosed = true → traffic.isClosing = false →
        (∀ conn ∈ traffic.custody.pool.idle, InHandWhileClosing lifetime turns conn) ∧
        ((∀ conn, ¬ InHandWhileClosing lifetime turns conn) →
          traffic.custody.pool.totalIdle = 0 ∧
          (traffic.custody.onLoan ++ (traffic.inHand ++ traffic.custody.closed)).Perm
            (List.range traffic.custody.created) ∧
          ∀ key conn after, traffic.custody.borrow key = (.ok conn, after) →
            conn = traffic.custody.created)) := by
  intro traffic
  have haccounted : traffic.Accounted := (Accounted.new lifetime).run turns
  refine ⟨haccounted, ?_⟩
  intro hclosed hnone
  have hidle (conn : Nat) (hconn : conn ∈ traffic.custody.pool.idle) :
      InHandWhileClosing lifetime turns conn := by
    obtain ⟨key, entry, hentry, rfl⟩ := Pool.exists_mem_queue hconn
    rcases (drained_run lifetime turns hclosed).queued key entry hentry with hlate | ⟨call, hcall, hkey⟩
    · exact hlate
    · have hclosing : traffic.isClosing = true := isClosing_of_mem hcall hkey
      rw [hnone] at hclosing
      cases hclosing
  refine ⟨hidle, ?_⟩
  intro hquiet
  have hempty : traffic.custody.pool.idle = [] := by
    apply List.eq_nil_iff_forall_not_mem.mpr
    intro conn hconn
    exact hquiet conn (hidle conn hconn)
  refine ⟨?_, ?_, ?_⟩
  · rw [Pool.idle, List.map_eq_nil_iff] at hempty
    rw [Pool.totalIdle, hempty]
    rfl
  · rw [Accounted, hempty] at haccounted
    exact haccounted
  · intro key conn after hborrow
    rcases (Custody.borrow_cases hborrow).1 with ⟨hnew, -⟩ | ⟨hqueued, -⟩
    · exact hnew
    · obtain ⟨entry, hentry, rfl⟩ := List.mem_map.mp hqueued
      have hmem := Pool.mem_idle hentry
      rw [hempty] at hmem
      cases hmem

def orderly : List (Turn Char) :=
  [.start (.borrow 'a'), .start (.borrow 'b'), .start (.giveBack 5 0 none), .proceed 0, .start (.sweep 6),
    .proceed 0, .proceed 0, .proceed 0, .proceed 0, .start .close, .start (.giveBack 7 1 none), .proceed 0,
    .proceed 0, .proceed 0]

theorem queued_after_closing_orderly :
    (run orderly (new 60)).custody.pool.isClosed = true ∧ (run orderly (new 60)).isClosing = false ∧
      (∀ conn, ¬ InHandWhileClosing 60 orderly conn) ∧
      (run orderly (new 60)).custody.pool.totalIdle = 0 ∧
      (run orderly (new 60)).custody.closed = [1, 0] := by
  have hclosed : (run orderly (new 60)).custody.pool.isClosed = true := by decide +kernel
  have hnone : (run orderly (new 60)).isClosing = false := by decide +kernel
  have hhands : ∀ count < orderly.length + 1, (run (orderly.take count) (new 60)).isClosing = true →
      (run (orderly.take count) (new 60)).inHand = [] := by decide +kernel
  have hquiet : ∀ conn, ¬ InHandWhileClosing 60 orderly conn := by
    rintro conn ⟨sofar, hsofar, hclosing, hconn⟩
    rw [List.prefix_iff_eq_take.mp hsofar] at hclosing hconn
    rw [hhands sofar.length (Nat.lt_succ_of_le hsofar.length_le) hclosing] at hconn
    cases hconn
  obtain ⟨-, hall⟩ := queued_after_closing 60 orderly
  exact ⟨hclosed, hnone, hquiet, ((hall hclosed hnone).2 hquiet).1, by decide +kernel⟩

/-- A return looks at the flag, and queues its connection after the closing is through. -/
def lateReturn : List (Turn Char) :=
  [.start (.borrow 'a'), .start (.giveBack 5 0 none), .start .close, .proceed 1, .proceed 1, .proceed 0]

/-- A sweep has a connection in hand from before the closing begins until after it is through. -/
def lateSweep : List (Turn Char) :=
  [.start (.borrow 'a'), .start (.giveBack 5 0 none), .proceed 0, .start (.sweep 6), .proceed 0,
    .start .close, .proceed 1, .proceed 1, .proceed 1, .proceed 0, .proceed 0, .proceed 0]

/-- A connection from before the closing can lie in a closed pool when all calls are through, and be lent again. -/
theorem closed_pool_lends :
    let returned : Traffic Char := run lateReturn (new 60)
    let swept : Traffic Char := run lateSweep (new 60)
    (returned.custody.pool.isClosed = true ∧ returned.calls.length = 0 ∧ returned.custody.closed = [] ∧
        (returned.custody.pool.queue 'a').map (·.conn) = [0] ∧
        (returned.custody.borrow 'a').1.toOption = some 0) ∧
      swept.custody.pool.isClosed = true ∧ swept.calls.length = 0 ∧ swept.custody.closed = [] ∧
        (swept.custody.pool.queue 'a').map (·.conn) = [0] ∧
        (swept.custody.borrow 'a').1.toOption = some 0 := by
  decide +kernel

end Traffic

end ShardedCache
