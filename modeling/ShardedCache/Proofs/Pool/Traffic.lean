import ShardedCache.Proofs.Pool.Ownership

/-! A return whose connection passed the test, a sweep and a closing are under way until they are through, and
meanwhile other calls take their steps.  No order of steps loses a connection or doubles it. -/

namespace ShardedCache

theorem Pool.sweepKey_of_none {α κ : Type} [DecidableEq α] {pool : Pool α κ} {key : α}
    (h : pool.queues.find? key = none) (valid : κ → Bool) (now : Nat) :
    pool.sweepKey valid now key = { answer := 0, pool := pool } := by
  have hqueue : pool.queue key = [] := by
    rw [queue, h]
    rfl
  have hentries : pool.queues.entries.filter (·.1 ≠ key) = pool.queues.entries := by
    apply List.filter_eq_self.mpr
    intro entry hentry
    have hne : key ≠ entry.1 := by simpa using List.lookup_eq_none_iff.mp h entry hentry
    simpa using hne.symm
  have herased : pool.queues.erase key = pool.queues := by
    simp only [Dictionary.erase, hentries]
  simp only [sweepKey, takeAll, hqueue, List.partition_eq_filter_filter, List.filter_nil, replace, h,
    restore, herased, if_true]
  rfl

/-- What is left to do of a call. -/
inductive Call (α : Type) where
  /-- The connection passed the test and will lie last in the queue of `key`. -/
  | queueing (key : α) (entry : Idle Nat)
  | sweeping (now : Nat) (keys : List α)
  /-- What lay in the queue of `key` is to be judged. -/
  | judging (now : Nat) (key : α) (drained : List (Idle Nat)) (keys : List α)
  /-- What a sweep keeps is to be put back. -/
  | restoring (now : Nat) (key : α) (survivors : List (Idle Nat)) (keys : List α)
  /-- The pool counts as closed, and its keys are to be looked up. -/
  | closing
  | discarding (keys : List α)

namespace Call

variable {α : Type}

/-- The connections that a call took over from a borrower or out of the pool. -/
def inHand : Call α → List Nat
  | .queueing _ entry => [entry.conn]
  | .judging _ _ drained _ => drained.map (·.conn)
  | .restoring _ _ survivors _ => survivors.map (·.conn)
  | .sweeping .. | .closing | .discarding _ => []

def isClosing : Call α → Bool
  | .closing | .discarding _ => true
  | .queueing .. | .sweeping .. | .judging .. | .restoring .. => false

def Discards (key : α) : Call α → Prop
  | .closing => True
  | .discarding keys => key ∈ keys
  | .queueing .. | .sweeping .. | .judging .. | .restoring .. => False

theorem isClosing_of_discards {key : α} {call : Call α} (h : call.Discards key) :
    call.isClosing = true := by
  match call with
  | .closing | .discarding _ => rfl
  | .queueing .. | .sweeping .. | .judging .. | .restoring .. => exact h.elim

variable [DecidableEq α]

def step (custody : Custody α) : Call α → Custody α × Option (Call α)
  | .queueing key entry => ({ custody with pool := custody.pool.push key entry }, none)
  | .sweeping _ [] => (custody, none)
  | .sweeping now (key :: keys) =>
    match custody.pool.queues.find? key with
    | none => (custody, some (.sweeping now keys))
    | some _ =>
      let (drained, pool) := custody.pool.takeAll key
      ({ custody with pool := pool }, some (.judging now key drained keys))
  | .judging now key drained keys =>
    let (kept, gone) := drained.partition (Pool.survives custody.valid custody.pool.lifetime now)
    ({ custody with closed := custody.closed ++ gone.map (·.conn) }, some (.restoring now key kept keys))
  | .restoring now key survivors keys =>
    ({ custody with pool := custody.pool.restore key survivors }, some (.sweeping now keys))
  | .closing => (custody, some (.discarding custody.pool.queues.keys))
  | .discarding [] => (custody, none)
  | .discarding (key :: keys) => (custody.absorb (custody.pool.discard key), some (.discarding keys))

/-- All that a step of a call can do. -/
structure Effect (call : Call α) (custody after : Custody α) (left : Option (Call α)) : Prop where
  held : after.held = custody.held
  created : after.created = custody.created
  isClosed : after.pool.isClosed = custody.pool.isClosed
  moved : (custody.pool.idle ++ call.inHand ++ custody.closed).Perm
    (after.pool.idle ++ left.toList.flatMap inHand ++ after.closed)
  queued : ∀ key, ∀ entry ∈ after.pool.queue key,
    entry ∈ custody.pool.queue key ∨ entry.conn ∈ call.inHand
  taken : ∀ conn ∈ left.toList.flatMap inHand,
    conn ∈ call.inHand ∨ ∃ key, ∃ entry ∈ custody.pool.queue key, entry.conn = conn
  discards : ∀ key, call.Discards key →
    after.pool.queue key = [] ∨ ∃ rest ∈ left, rest.Discards key
  empty : call.isClosing = true → left.toList.flatMap inHand = []

theorem Effect.same {call : Call α} {custody : Custody α} {left : Option (Call α)}
    (hhand : left.toList.flatMap inHand = call.inHand)
    (hclosing : call.isClosing = true → call.inHand = [])
    (hdiscards : ∀ key, call.Discards key →
      custody.pool.queue key = [] ∨ ∃ rest ∈ left, rest.Discards key) :
    Effect call custody custody left := by
  refine ⟨rfl, rfl, rfl, ?_, ?_, ?_, hdiscards, ?_⟩
  · rw [hhand]
  · intro key entry hentry
    exact .inl hentry
  · intro conn hconn
    rw [hhand] at hconn
    exact .inl hconn
  · intro h
    rw [hhand]
    exact hclosing h

theorem effect_queueing (custody : Custody α) (key : α) (entry : Idle Nat) :
    Effect (.queueing key entry) custody { custody with pool := custody.pool.push key entry } none := by
  refine ⟨rfl, rfl, rfl, ?_, ?_, nofun, nofun, nofun⟩
  · have hpushed := (Pool.everyIdle_push custody.pool key entry).map (·.conn)
    calc List.Perm (custody.pool.idle ++ [entry.conn] ++ custody.closed)
          (entry.conn :: custody.pool.idle ++ custody.closed) := List.perm_append_comm.append_right _
      List.Perm _ ((custody.pool.push key entry).idle ++ custody.closed) := hpushed.symm.append_right _
      List.Perm _ ((custody.pool.push key entry).idle ++ [] ++ custody.closed) := by rw [List.append_nil]
  · intro other idle hidle
    change idle ∈ (custody.pool.push key entry).queue other at hidle
    rw [Pool.queue_push] at hidle
    by_cases hother : other = key
    · rw [if_pos hother] at hidle
      rcases List.mem_append.mp hidle with hidle | hidle
      · rw [hother]
        exact .inl hidle
      · rw [List.mem_singleton.mp hidle]
        exact .inr List.mem_cons_self
    · rw [if_neg hother] at hidle
      exact .inl hidle

theorem effect_takeAll (custody : Custody α) (now : Nat) (key : α) (keys : List α) :
    Effect (.sweeping now (key :: keys)) custody
      { custody with pool := (custody.pool.takeAll key).2 }
      (some (.judging now key (custody.pool.takeAll key).1 keys)) := by
  have hqueue (other : α) : (custody.pool.takeAll key).2.queue other =
      if other = key then [] else custody.pool.queue other :=
    Pool.queue_replace (fun _ => rfl) other
  refine ⟨rfl, rfl, Pool.isClosed_replace .., ?_, ?_, ?_, nofun, nofun⟩
  · have htaken := (Pool.everyIdle_takeAll custody.pool key).map (·.conn)
    rw [List.map_append] at htaken
    simp only [Option.toList_some, List.flatMap_singleton, inHand, List.append_nil]
    calc List.Perm (custody.pool.idle ++ custody.closed)
          ((custody.pool.takeAll key).1.map (·.conn) ++ (custody.pool.takeAll key).2.idle ++ custody.closed) :=
          htaken.append_right _
      List.Perm _
          ((custody.pool.takeAll key).2.idle ++ (custody.pool.takeAll key).1.map (·.conn) ++ custody.closed) :=
          List.perm_append_comm.append_right _
  · intro other idle hidle
    rw [hqueue] at hidle
    split at hidle
    · cases hidle
    · exact .inl hidle
  · intro conn hconn
    simp only [Option.toList_some, List.flatMap_singleton, inHand] at hconn
    obtain ⟨entry, hentry, rfl⟩ := List.mem_map.mp hconn
    exact .inr ⟨key, entry, hentry, rfl⟩

theorem effect_judging (custody : Custody α) (now : Nat) (key : α) (drained : List (Idle Nat))
    (keys : List α) (passes : Idle Nat → Bool) :
    Effect (.judging now key drained keys) custody
      { custody with closed := custody.closed ++ (drained.filter (not ∘ passes)).map (·.conn) }
      (some (.restoring now key (drained.filter passes) keys)) := by
  refine ⟨rfl, rfl, rfl, ?_, ?_, ?_, nofun, nofun⟩
  · have hsplit := (List.filter_append_perm passes drained).symm.map (·.conn)
    rw [List.map_append] at hsplit
    simp only [Option.toList_some, List.flatMap_singleton, inHand, List.append_assoc]
    apply List.Perm.append_left
    calc List.Perm (drained.map (·.conn) ++ custody.closed)
          ((drained.filter passes).map (·.conn) ++ (drained.filter (not ∘ passes)).map (·.conn) ++
            custody.closed) := hsplit.append_right _
      List.Perm _ ((drained.filter passes).map (·.conn) ++
          (custody.closed ++ (drained.filter (not ∘ passes)).map (·.conn))) := by
        rw [List.append_assoc]
        exact List.perm_append_comm.append_left _
  · intro other idle hidle
    exact .inl hidle
  · intro conn hconn
    simp only [Option.toList_some, List.flatMap_singleton, inHand] at hconn
    obtain ⟨entry, hentry, rfl⟩ := List.mem_map.mp hconn
    exact .inl (List.mem_map.mpr ⟨entry, (List.mem_filter.mp hentry).1, rfl⟩)

theorem effect_restoring (custody : Custody α) (now : Nat) (key : α) (survivors : List (Idle Nat))
    (keys : List α) :
    Effect (.restoring now key survivors keys) custody
      { custody with pool := custody.pool.restore key survivors } (some (.sweeping now keys)) := by
  refine ⟨rfl, rfl, Pool.isClosed_restore .., ?_, ?_, nofun, nofun, nofun⟩
  · have hrestored := (Pool.everyIdle_restore custody.pool key survivors).map (·.conn)
    rw [List.map_append] at hrestored
    simp only [Option.toList_some, List.flatMap_singleton, inHand, List.append_nil]
    calc List.Perm (custody.pool.idle ++ survivors.map (·.conn) ++ custody.closed)
          (survivors.map (·.conn) ++ custody.pool.idle ++ custody.closed) :=
          List.perm_append_comm.append_right _
      List.Perm _ ((custody.pool.restore key survivors).idle ++ custody.closed) :=
          hrestored.symm.append_right _
  · intro other idle hidle
    rw [Pool.queue_restore] at hidle
    split at hidle
    · rename_i hother
      rcases List.mem_append.mp hidle with hidle | hidle
      · rw [hother]
        exact .inl hidle
      · exact .inr (List.mem_map.mpr ⟨idle, hidle, rfl⟩)
    · exact .inl hidle

theorem effect_discard (custody : Custody α) (key : α) (keys : List α) :
    Effect (.discarding (key :: keys)) custody (custody.absorb (custody.pool.discard key))
      (some (.discarding keys)) := by
  have hqueue (other : α) : (custody.pool.discard key).pool.queue other =
      if other = key then [] else custody.pool.queue other := by
    simp only [Pool.queue, Pool.discard, Dictionary.find?_erase]
    split <;> rfl
  refine ⟨rfl, rfl, rfl, ?_, ?_, ?_, ?_, fun _ => rfl⟩
  · have hidle := Pool.idle_discard custody.pool key
    simp only [Option.toList_some, List.flatMap_singleton, inHand, List.append_nil]
    exact Pool.perm_append_closed hidle
  · intro other idle hidle
    change idle ∈ (custody.pool.discard key).pool.queue other at hidle
    rw [hqueue] at hidle
    split at hidle
    · cases hidle
    · exact .inl hidle
  · intro conn hconn
    cases hconn
  · intro other hother
    by_cases hkey : other = key
    · left
      show (custody.pool.discard key).pool.queue other = []
      rw [hqueue, if_pos hkey]
    · right
      exact ⟨_, rfl, (List.mem_cons.mp hother).resolve_left hkey⟩

theorem effect_step (call : Call α) (custody : Custody α) :
    call.Effect custody (call.step custody).1 (call.step custody).2 := by
  cases call with
  | queueing key entry => exact effect_queueing custody key entry
  | sweeping now keys =>
    cases keys with
    | nil =>
      refine .same rfl ?_ ?_
      · intro hclosing
        cases hclosing
      · intro key hdiscards
        cases hdiscards
    | cons key keys =>
      cases hfind : custody.pool.queues.find? key with
      | none =>
        simp only [step, hfind]
        refine .same rfl ?_ ?_
        · intro hclosing
          cases hclosing
        · intro other hdiscards
          cases hdiscards
      | some _ =>
        simp only [step, hfind]
        exact effect_takeAll custody now key keys
  | judging now key drained keys =>
    simp only [step, List.partition_eq_filter_filter]
    exact effect_judging custody now key drained keys _
  | restoring now key survivors keys => exact effect_restoring custody now key survivors keys
  | closing =>
    refine .same rfl (fun _ => rfl) ?_
    intro key _
    -- A key that is not among those looked up has no queue.
    by_cases hkey : key ∈ custody.pool.queues.keys
    · exact .inr ⟨_, rfl, hkey⟩
    · left
      rw [Pool.queue, Dictionary.find?_of_not_mem_keys hkey]
      rfl
  | discarding keys =>
    cases keys with
    | nil =>
      refine .same rfl (fun _ => rfl) ?_
      intro key hdiscards
      cases hdiscards
    | cons key keys => exact effect_discard custody key keys

end Call

structure Traffic (α : Type) where
  custody : Custody α
  calls : List (Call α) := []

namespace Traffic

inductive Turn (α : Type) where
  | start (dealing : Dealing α)
  | proceed (place : Nat)

section

variable {α : Type}

def new (lifetime : Nat) : Traffic α :=
  { custody := .new lifetime }

def inHand (traffic : Traffic α) : List Nat :=
  traffic.calls.flatMap Call.inHand

def isClosing (traffic : Traffic α) : Bool :=
  traffic.calls.any Call.isClosing

end

variable {α : Type} [DecidableEq α] {traffic : Traffic α} {call : Call α}

/-- The first step of what happens to a pool.  A return looks at the flag and at the connection, a sweep looks up
the keys, and a closing sets the flag; the rest of them is left to do.  All else is done in one step. -/
def start (traffic : Traffic α) : Dealing α → Traffic α
  | .giveBack now conn key =>
    match traffic.custody.held.lookup conn with
    | none => traffic
    | some own =>
      let custody := { traffic.custody with held := traffic.custody.held.filter (·.1 ≠ conn) }
      if custody.pool.isClosed || !custody.valid conn then
        { traffic with custody := { custody with closed := custody.closed ++ [conn] } }
      else
        { custody := custody
          calls := traffic.calls ++ [.queueing (key.getD own) ⟨conn, now⟩] }
  | .sweep now =>
    { traffic with calls := traffic.calls ++ [.sweeping now traffic.custody.pool.queues.keys] }
  | .close =>
    { custody := { traffic.custody with pool := { traffic.custody.pool with isClosed := true } }
      calls := traffic.calls ++ [.closing] }
  | dealing => { traffic with custody := traffic.custody.deal dealing }

def proceed (traffic : Traffic α) (place : Nat) : Traffic α :=
  match traffic.calls[place]? with
  | none => traffic
  | some call =>
    let (custody, left) := call.step traffic.custody
    { custody := custody
      calls := traffic.calls.take place ++ left.toList ++ traffic.calls.drop (place + 1) }

def step (traffic : Traffic α) : Turn α → Traffic α
  | .start dealing => traffic.start dealing
  | .proceed place => traffic.proceed place

def run (turns : List (Turn α)) (traffic : Traffic α) : Traffic α :=
  turns.foldl step traffic

theorem start_invalidate (traffic : Traffic α) (conn : Nat) :
    traffic.start (.invalidate conn) = traffic ∨
      traffic.start (.invalidate conn) = traffic.start (.kill conn) := by
  match hheld : traffic.custody.held.lookup conn with
  | none => exact .inl (by simp only [start, Custody.deal, Custody.invalidate, hheld, Option.map_none,
      Option.getD_none])
  | some own => exact .inr (by simp only [start, Custody.deal, Custody.invalidate, hheld, Option.map_some,
      Option.getD_some])

theorem proceed_cases (traffic : Traffic α) (place : Nat) :
    traffic.proceed place = traffic ∨
      ∃ front call back after left, traffic.calls = front ++ call :: back ∧
        call.Effect traffic.custody after left ∧
        traffic.proceed place = { custody := after, calls := front ++ left.toList ++ back } := by
  match hcall : traffic.calls[place]? with
  | none =>
    left
    simp only [proceed, hcall]
  | some call =>
    right
    obtain ⟨hlt, hget⟩ := List.getElem?_eq_some_iff.mp hcall
    refine ⟨traffic.calls.take place, call, traffic.calls.drop (place + 1), _, _, ?_,
      call.effect_step traffic.custody, ?_⟩
    · rw [← hget, List.getElem_cons_drop, List.take_append_drop]
    · simp only [proceed, hcall]

/-- Each connection that was created is idle, on loan, in the hand of a call or closed, and is so once. -/
def Accounted (traffic : Traffic α) : Prop :=
  (traffic.custody.pool.idle ++ traffic.custody.onLoan ++ (traffic.inHand ++ traffic.custody.closed)).Perm
    (List.range traffic.custody.created)

namespace Accounted

omit [DecidableEq α] in
theorem new (lifetime : Nat) : (new lifetime : Traffic α).Accounted :=
  .nil

omit [DecidableEq α] in
theorem onLoan_nodup (h : traffic.Accounted) : traffic.custody.onLoan.Nodup := by
  have hall := List.Perm.nodup_iff h |>.mpr List.nodup_range
  exact (List.nodup_append.mp (List.nodup_append.mp hall).1).2.1

theorem giveBack (h : traffic.Accounted) (now conn : Nat) (key : Option α) :
    (traffic.start (.giveBack now conn key)).Accounted := by
  match hheld : traffic.custody.held.lookup conn with
  | none => simpa only [start, hheld] using h
  | some own =>
    have hloan := Custody.onLoan_perm h.onLoan_nodup hheld
    simp only [start, hheld]
    split
    all_goals
      apply List.Perm.trans _ h
      rw [List.perm_iff_count] at hloan ⊢
      intro other
      have hother := hloan other
      simp only [Custody.onLoan, inHand, Call.inHand, List.flatMap_append, List.flatMap_singleton,
        List.count_append, List.count_cons, List.count_nil] at hother ⊢
      omega

omit [DecidableEq α] in
theorem enter (h : traffic.Accounted) (hempty : call.inHand = []) :
    ({ traffic with calls := traffic.calls ++ [call] } : Traffic α).Accounted := by
  have hsame : (traffic.calls ++ [call]).flatMap Call.inHand = traffic.inHand := by
    rw [List.flatMap_append, List.flatMap_singleton, hempty, List.append_nil]
    rfl
  rw [Accounted, inHand, hsame]
  exact h

theorem start (h : traffic.Accounted) (dealing : Dealing α) : (traffic.start dealing).Accounted := by
  cases dealing with
  | borrow key => exact Custody.placed_borrow traffic.inHand h key
  | giveBack now conn key => exact h.giveBack now conn key
  | invalidate conn =>
    rcases traffic.start_invalidate conn with hsame | hsame
    · rw [hsame]
      exact h
    · rw [hsame]
      exact h
  | kill conn => exact h
  | refuse refusal => exact h
  | sweep now => exact h.enter rfl
  | close => exact h.enter rfl

theorem proceed (h : traffic.Accounted) (place : Nat) : (traffic.proceed place).Accounted := by
  rcases traffic.proceed_cases place with hsame | ⟨front, call, back, after, left, hcalls, heffect, hafter⟩
  · rw [hsame]
    exact h
  · rw [hafter, Accounted, heffect.created]
    apply List.Perm.trans _ h
    have hmoved := heffect.moved
    rw [List.perm_iff_count] at hmoved ⊢
    intro conn
    have hconn := hmoved conn
    simp only [inHand, hcalls, Custody.onLoan, heffect.held, List.flatMap_append, List.flatMap_cons,
      List.count_append] at hconn ⊢
    omega

theorem run (h : traffic.Accounted) (turns : List (Turn α)) : (run turns traffic).Accounted := by
  induction turns generalizing traffic with
  | nil => exact h
  | cons turn turns ih =>
    cases turn with
    | start dealing => exact ih (h.start dealing)
    | proceed place => exact ih (h.proceed place)

end Accounted

/-- Left to itself, the call comes to its end. -/
def Finishes (call : Call α) (custody after : Custody α) : Prop :=
  ∃ steps, run (List.replicate steps (.proceed 0)) { custody := custody, calls := [call] } =
    { custody := after }

namespace Finishes

variable {custody middle after : Custody α} {rest : Call α}

theorem of_none (h : call.step custody = (after, none)) : Finishes call custody after := by
  refine ⟨1, ?_⟩
  show proceed { custody := custody, calls := [call] } 0 = { custody := after }
  simp only [proceed, List.getElem?_cons_zero, h]
  rfl

theorem of_some (hrest : Finishes rest middle after) (h : call.step custody = (middle, some rest)) :
    Finishes call custody after := by
  obtain ⟨steps, hsteps⟩ := hrest
  refine ⟨steps + 1, ?_⟩
  have hfirst : proceed { custody := custody, calls := [call] } 0 = { custody := middle, calls := [rest] } := by
    simp only [proceed, List.getElem?_cons_zero, h]
    rfl
  rw [List.replicate_succ, run, List.foldl_cons, Traffic.step, hfirst]
  exact hsteps

theorem discarding (custody : Custody α) (keys : List α) (sofar : Pool.Outcome α Nat Unit) :
    Finishes (.discarding keys) (custody.absorb sofar)
      (custody.absorb (keys.foldl Pool.discardOn sofar)) := by
  induction keys generalizing sofar with
  | nil => exact of_none rfl
  | cons key keys ih =>
    apply (ih (Pool.discardOn sofar key)).of_some
    simp only [Call.step, Custody.absorb, Pool.discardOn, List.append_assoc]

theorem sweeping_cons {now : Nat} {key : α} {keys : List α} {sofar : Pool.Outcome α Nat Nat}
    (hrest : Finishes (.sweeping now keys)
      (custody.absorb (Pool.sweepOn custody.valid now sofar key)) after) :
    Finishes (.sweeping now (key :: keys)) (custody.absorb sofar) after := by
  match hfind : sofar.pool.queues.find? key with
  | none =>
    apply hrest.of_some
    simp only [Call.step, Pool.sweepOn, Pool.sweepKey_of_none hfind, Custody.absorb, hfind, List.append_nil]
  | some _ =>
    let passes := Pool.survives custody.valid sofar.pool.lifetime now
    let kept := (sofar.pool.queue key).filter passes
    let gone := (sofar.pool.queue key).filter (not ∘ passes)
    have hrestoring : Finishes (.restoring now key kept keys)
        { custody with
          pool := (sofar.pool.takeAll key).2
          closed := custody.closed ++ sofar.closed ++ gone.map (·.conn) } after := by
      apply hrest.of_some
      simp only [Call.step, Custody.absorb, Pool.sweepOn, Pool.sweepKey, Pool.takeAll,
        List.partition_eq_filter_filter, List.append_assoc, kept, gone, passes]
    have hjudging : Finishes (.judging now key (sofar.pool.queue key) keys)
        { custody.absorb sofar with pool := (sofar.pool.takeAll key).2 } after := by
      apply hrestoring.of_some
      have hlifetime : (sofar.pool.takeAll key).2.lifetime = sofar.pool.lifetime :=
        Pool.lifetime_replace ..
      simp only [Call.step, hlifetime, List.partition_eq_filter_filter]
      rfl
    apply hjudging.of_some
    simp only [Call.step, Custody.absorb, hfind]
    rfl

theorem sweeping (custody : Custody α) (now : Nat) (keys : List α) (sofar : Pool.Outcome α Nat Nat) :
    Finishes (.sweeping now keys) (custody.absorb sofar)
      (custody.absorb (keys.foldl (Pool.sweepOn custody.valid now) sofar)) := by
  induction keys generalizing sofar with
  | nil => exact of_none rfl
  | cons key keys ih => exact sweeping_cons (ih _)

end Finishes

/-- Nothing else is under way while this happens, from its first step to its last. -/
def Alone (dealing : Dealing α) (custody after : Custody α) : Prop :=
  ∃ steps, run (.start dealing :: List.replicate steps (.proceed 0)) { custody := custody } =
    { custody := after }

namespace Alone

variable {custody begun after : Custody α} {dealing : Dealing α}

theorem of_start (h : start { custody := custody } dealing = { custody := after }) :
    Alone dealing custody after :=
  ⟨0, h⟩

theorem of_finishes (h : start { custody := custody } dealing = { custody := begun, calls := [call] })
    (hfinishes : Finishes call begun after) : Alone dealing custody after := by
  obtain ⟨steps, hsteps⟩ := hfinishes
  refine ⟨steps, ?_⟩
  rw [run, List.foldl_cons, step, h]
  exact hsteps

theorem giveBack (custody : Custody α) (now conn : Nat) (key : Option α) :
    Alone (.giveBack now conn key) custody (custody.deal (.giveBack now conn key)) := by
  match hheld : custody.held.lookup conn with
  | none =>
    apply of_start
    simp only [start, hheld, Custody.deal, Custody.giveBack, Option.map_none, Option.getD_none]
  | some own =>
    rw [Custody.deal, Custody.giveBack_of_lookup hheld, Option.getD_some, Pool.giveBack]
    by_cases hrefused : (custody.pool.isClosed || !custody.valid conn) = true
    · rw [if_pos hrefused]
      apply of_start
      simp only [start, hheld]
      exact if_pos hrefused
    · rw [if_neg hrefused, Custody.absorb, List.append_nil]
      have hqueueing : start { custody := custody } (.giveBack now conn key) =
          { custody := { custody with held := custody.held.filter (·.1 ≠ conn) }
            calls := [.queueing (key.getD own) ⟨conn, now⟩] } := by
        simp only [start, hheld]
        exact if_neg hrefused
      exact of_finishes hqueueing (Finishes.of_none rfl)

theorem sweep (custody : Custody α) (now : Nat) :
    Alone (.sweep now) custody (custody.deal (.sweep now)) := by
  have hall := Finishes.sweeping custody now custody.pool.queues.keys
    { answer := 0, pool := custody.pool }
  rw [← Pool.sweep_eq_foldl, Custody.absorb, List.append_nil] at hall
  exact of_finishes rfl hall

theorem close (custody : Custody α) : Alone .close custody (custody.deal .close) := by
  have hall := Finishes.discarding custody custody.pool.queues.keys
    { answer := (), pool := { custody.pool with isClosed := true } }
  rw [← Pool.close_eq_foldl, Custody.absorb, List.append_nil] at hall
  exact of_finishes rfl (hall.of_some rfl)

/-- What nothing comes between is dealt with as if it took one step. -/
theorem deal (custody : Custody α) (dealing : Dealing α) :
    Alone dealing custody (custody.deal dealing) := by
  cases dealing with
  | giveBack now conn key => exact giveBack custody now conn key
  | sweep now => exact sweep custody now
  | close => exact close custody
  | borrow _ | invalidate _ | kill _ | refuse _ => exact of_start rfl

end Alone

end Traffic

end ShardedCache
