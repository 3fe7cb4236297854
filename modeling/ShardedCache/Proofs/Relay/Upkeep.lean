import ShardedCache.Proofs.Pool.Ownership
import ShardedCache.Proofs.Relay.Lockstep
import ShardedCache.Proofs.Session.Outflow

namespace ShardedCache

/-- A request that some backend has to answer: a lookup or a request to store, with its key whole. -/
def Packet.AddressedTo (request : Packet) (key : Octets) : Prop :=
  ∃ op, request.header.command? = some op ∧ (op.isLookup || op.isPut) = true ∧
    request.key? = some key

theorem Link.exchange_front {link after : Link} {request accepted : Octets}
    {answer : Except Fault Octets} (h : link.exchange request = (accepted, answer, after)) :
    accepted <+: request ∧ after.id = link.id := by
  obtain ⟨-, -, hfront, -⟩ := WriteEvent.pushAll_cases .shortWrite
    (link.writes ++ (link.plan.head?.getD {}).writes) request
  rcases hpush : WriteEvent.pushAll .shortWrite (link.writes ++ (link.plan.head?.getD {}).writes)
    request with ⟨taken, error | _, writes⟩
  · rw [hpush] at hfront
    simp only [exchange, hpush, Prod.mk.injEq] at h
    obtain ⟨rfl, -, rfl⟩ := h
    exact ⟨hfront, rfl⟩
  rw [hpush] at hfront
  cases hflush : (link.plan.head?.getD {}).flushError with
  | some error =>
    simp only [exchange, hpush, hflush, Prod.mk.injEq] at h
    obtain ⟨rfl, -, rfl⟩ := h
    exact ⟨hfront, rfl⟩
  | none =>
    rcases hread : Inlet.readFrame Frame.defaultLimit
      (link.inlet ++ (link.plan.head?.getD {}).reads) with ⟨fault | frame, rest⟩
    · simp only [exchange, hpush, hflush, hread, Prod.mk.injEq] at h
      obtain ⟨rfl, -, rfl⟩ := h
      exact ⟨hfront, rfl⟩
    simp only [exchange, hpush, hflush, hread] at h
    split at h
    all_goals
      simp only [Prod.mk.injEq] at h
      obtain ⟨rfl, -, rfl⟩ := h
      exact ⟨hfront, rfl⟩

theorem Pool.closed_giveBack_of_not_valid {α κ : Type} [DecidableEq α] {valid : κ → Bool} {conn : κ}
    (h : valid conn = false) (now : Nat) (key : α) (pool : Pool α κ) :
    (pool.giveBack valid now key conn).closed = [conn] := by
  simp only [giveBack, h, Bool.not_false, Bool.or_true, if_true]

/-- A link that is marked is of no use from then on, and is the same link.  Any other link may be found dead whenever
it is looked at: what `valid` answers is up to the link and to all that happened outside. -/
structure Linkage.Marking {ω : Type} (linkage : Linkage ω) : Prop where
  spoils : ∀ outside link, linkage.valid outside (linkage.spoil link) = false
  same : ∀ link, (linkage.spoil link).id = link.id

variable {ω : Type}

def Logged.LeadsTo (world : Logged ω) (link : Nat) (address : Address) : Prop :=
  ∃ plan, world.plans[link]? = some (address, plan)

theorem Logged.LeadsTo.of_grown {world after : Logged ω} {link : Nat} {address : Address}
    (h : world.LeadsTo link address) {more : List (Address × List Exchange)}
    (hplans : after.plans = world.plans ++ more) : after.LeadsTo link address := by
  obtain ⟨plan, hplan⟩ := h
  obtain ⟨hlt, -⟩ := List.getElem?_eq_some_iff.mp hplan
  refine ⟨plan, ?_⟩
  rw [hplans, List.getElem?_append_left hlt]
  exact hplan

/-- Each link that was made is idle, on loan or closed, and is so once; idle ones lie alone under the address they
lead to. -/
structure Tidy (pool : Pool Address Link) (world : Logged ω) (onLoan closed : List Nat) : Prop where
  placed : (pool.idle.map (·.id) ++ onLoan ++ closed).Perm (List.range world.plans.length)
  home : ∀ address, ∀ entry ∈ pool.queue address, world.LeadsTo entry.conn.id address
  single : ∀ address, (pool.queue address).length ≤ 1

namespace Tidy

variable {linkage : Linkage ω} {pool : Pool Address Link} {world after : Logged ω}
  {address : Address} {link : Link} {onLoan closed : List Nat}

theorem new (lifetime : Nat) (outside : ω) :
    Tidy (Station.new lifetime outside).pool (Station.new lifetime outside).world [] [] :=
  ⟨.nil, nofun, fun _ => Nat.zero_le 1⟩

theorem of_plans (h : Tidy pool world onLoan closed) (hplans : after.plans = world.plans) :
    Tidy pool after onLoan closed := by
  refine ⟨?_, ?_, h.single⟩
  · rw [hplans]
    exact h.placed
  · intro address entry hentry
    have hgrown : after.plans = world.plans ++ [] := by rw [hplans, List.append_nil]
    exact (h.home address entry hentry).of_grown hgrown

theorem sweep (h : Tidy pool world [] closed) (valid : Link → Bool) (now : Nat) :
    Tidy (pool.sweep valid now).pool world [] (closed ++ (pool.sweep valid now).closed.map (·.id)) := by
  have hidle := (Pool.idle_sweep valid now pool).map (·.id)
  rw [List.map_append] at hidle
  refine ⟨(Custody.perm_moved [] closed [] [] hidle (.refl [])).trans h.placed, ?_, ?_⟩
  · intro address entry hentry
    rw [Pool.queue_sweep] at hentry
    exact h.home address entry (List.mem_filter.mp hentry).1
  · intro address
    rw [Pool.queue_sweep]
    exact Nat.le_trans (List.length_filter_le ..) (h.single address)

theorem dial (h : Tidy pool world [] closed) (linkage : Linkage ω) (address : Address) :
    (linkage.dial address world).2.log = world.log ∧
      ((∃ error, (linkage.dial address world).1 = .error error ∧
          Tidy pool (linkage.dial address world).2 [] closed) ∨
        ∃ link, (linkage.dial address world).1 = .ok link ∧
          Tidy pool (linkage.dial address world).2 [link.id] closed ∧
          (linkage.dial address world).2.LeadsTo link.id address) := by
  match hconnect : linkage.connect address world.outside with
  | (.refuse error, outside) =>
    simp only [Linkage.dial, hconnect]
    exact ⟨trivial, .inl ⟨error, rfl, h.of_plans rfl⟩⟩
  | (.accept exchanges lifespan, outside) =>
    simp only [Linkage.dial, hconnect]
    refine ⟨trivial, .inr ⟨_, rfl, ⟨?_, ?_, h.single⟩, exchanges, List.getElem?_concat_length⟩⟩
    · rw [List.length_append, List.length_singleton, List.range_succ]
      have hothers := h.placed.append_right [world.plans.length]
      apply List.Perm.trans _ hothers
      rw [List.append_nil, List.append_assoc, List.append_assoc]
      exact List.perm_append_comm.append_left _
    · intro other entry hentry
      exact (h.home other entry hentry).of_grown rfl

theorem borrow (h : Tidy pool world [] closed) (valid : Link → Bool) (address : Address)
    {loan : Pool.Outcome Address Link (Except IoError Link)}
    (hborrow : pool.borrow valid (linkage.dial address) address world = (loan, after)) :
    loan.pool.queue address = [] ∧ after.log = world.log ∧
      ((∃ error, loan.answer = .error error ∧
          Tidy loan.pool after [] (closed ++ loan.closed.map (·.id))) ∨
        ∃ link, loan.answer = .ok link ∧
          Tidy loan.pool after [link.id] (closed ++ loan.closed.map (·.id)) ∧
          after.LeadsTo link.id address) := by
  have hplaces := Pool.idle_borrow valid (linkage.dial address) address pool world
  rw [hborrow] at hplaces
  rcases hplaces with ⟨before, entry, rest, hqueue, hanswer, rfl, hidle, hafter⟩ |
    ⟨hanswer, rfl, hidle, hafter⟩
  · -- The queue had one link, which is the one that is lent.
    have hrest : rest = [] := by
      have hone := h.single address
      rw [hqueue, List.length_append, List.length_cons] at hone
      apply List.eq_nil_of_length_eq_zero
      omega
    have hmap := hidle.map (·.id)
    rw [List.map_cons, List.map_append] at hmap
    have hmoved := Custody.perm_moved [] closed [entry.conn.id] [] hmap (.refl _)
    refine ⟨by rw [hafter, if_pos rfl, hrest], rfl, .inr ⟨entry.conn, hanswer, ⟨?_, ?_, ?_⟩, ?_⟩⟩
    · exact hmoved.trans h.placed
    · intro other idle hidle
      rw [hafter] at hidle
      split at hidle
      · rw [hrest] at hidle
        cases hidle
      · exact h.home other idle hidle
    · intro other
      rw [hafter]
      split
      · rw [hrest]
        exact Nat.zero_le 1
      · exact h.single other
    · apply h.home address
      rw [hqueue]
      exact List.mem_append_right before List.mem_cons_self
  · have hmap := hidle.map (·.id)
    rw [List.map_append] at hmap
    have hmoved := Custody.perm_moved [] closed [] [] hmap (.refl [])
    have hemptied : Tidy loan.pool world [] (closed ++ loan.closed.map (·.id)) := by
      refine ⟨hmoved.trans h.placed, ?_, ?_⟩
      · intro other idle hidle
        rw [hafter] at hidle
        split at hidle
        · cases hidle
        · exact h.home other idle hidle
      · intro other
        rw [hafter]
        split
        · exact Nat.zero_le 1
        · exact h.single other
    obtain ⟨hlog, hdial⟩ := hemptied.dial linkage address
    refine ⟨by rw [hafter, if_pos rfl], hlog, ?_⟩
    rw [hanswer]
    exact hdial

theorem giveBack (h : Tidy pool world [link.id] closed) (hempty : pool.queue address = [])
    (hleads : world.LeadsTo link.id address) (valid : Link → Bool) (now : Nat) :
    Tidy (pool.giveBack valid now address link).pool world []
      (closed ++ (pool.giveBack valid now address link).closed.map (·.id)) := by
  have hidle := (Pool.idle_giveBack valid now address link pool).map (·.id)
  rw [List.map_cons, List.map_append] at hidle
  have hmoved := Custody.perm_moved [link.id] closed [] [link.id] hidle (.refl _)
  refine ⟨hmoved.trans h.placed, ?_, ?_⟩
  · intro other entry hentry
    rcases Pool.mem_queue_giveBack hentry with hentry | ⟨rfl, rfl⟩
    · exact h.home other entry hentry
    · exact hleads
  · intro other
    rcases Pool.giveBack_cases valid now address link pool with ⟨-, hafter⟩ | hafter
    · rw [hafter]
      split
      · rw [hempty]
        exact Nat.le_refl 1
      · exact h.single other
    · rw [hafter]
      exact h.single other

end Tidy

/-- The one exchange in which a request was sent: on a link that leads to `address`, and which is closed if the
exchange failed. -/
structure SentOnce (request : Packet) (address : Address) (world : Logged ω) (closed : List Link)
    (past : Exchanged) : Prop where
  sent : past.request = request.encode
  front : past.accepted <+: request.encode
  leads : world.LeadsTo past.link address
  failed : ∀ fault, past.answer = .error fault → past.link ∈ closed.map (·.id)

namespace Tidy

variable {linkage : Linkage ω} {pool : Pool Address Link} {world : Logged ω} {closed : List Nat}

theorem forward (h : Tidy pool world [] closed) (hlinkage : linkage.Marking) (now : Nat) (op : Opcode)
    (address : Address) (request : Packet) {routed : Relay.Routed Link (Logged ω)}
    (hrouted : Relay.forward linkage.backplane now op address request pool world = routed) :
    Tidy routed.pool routed.world [] (closed ++ routed.closed.map (·.id)) ∧
      (routed.world.log = world.log ∨
        ∃ past, routed.world.log = world.log ++ [past] ∧
          SentOnce request address routed.world routed.closed past) := by
  cases hborrow : pool.borrow (linkage.valid world.outside) (linkage.dial address) address world with
  | mk loan borrowed =>
    obtain ⟨hempty, hlog, hloan⟩ := h.borrow (linkage.valid world.outside) address hborrow
    rcases hloan with ⟨error, hanswer, hafter⟩ | ⟨link, hanswer, hafter, hleads⟩
    · rw [Relay.forward_of_refusal linkage.backplane op now hborrow hanswer] at hrouted
      subst hrouted
      exact ⟨hafter, .inl hlog⟩
    rcases hexchange : link.exchange request.encode with ⟨accepted, answer, back⟩
    · obtain ⟨hfront, hid⟩ := Link.exchange_front hexchange
      have hconverse : linkage.backplane.converse request.encode link borrowed =
          (answer, back,
            borrowed.record { link := link.id, request := request.encode, accepted, answer }) := by
        simp only [Linkage.backplane, hexchange]
      have hrecorded (past : Exchanged) : (borrowed.record past).log = world.log ++ [past] :=
        congrArg (· ++ [past]) hlog
      have hreturned (past : Exchanged) (conn : Link) (hsame : conn.id = link.id) :
          Tidy (loan.pool.giveBack (linkage.valid borrowed.outside) now address conn).pool
            (borrowed.record past) []
            (closed ++ (loan.closed ++ (loan.pool.giveBack (linkage.valid borrowed.outside) now address
              conn).closed).map (·.id)) := by
        rw [← hsame] at hafter hleads
        have hnoted : Tidy loan.pool (borrowed.record past) [conn.id]
            (closed ++ loan.closed.map (·.id)) := hafter.of_plans rfl
        have hback := hnoted.giveBack hempty hleads (linkage.valid borrowed.outside) now
        rwa [List.append_assoc, ← List.map_append] at hback
      cases answer with
      | ok frame =>
        rw [Relay.forward_of_frame linkage.backplane op now hborrow hanswer hconverse] at hrouted
        subst hrouted
        refine ⟨hreturned _ back hid, .inr ⟨_, hrecorded _, rfl, hfront, hleads, ?_⟩⟩
        intro fault hfault
        cases hfault
      | error fault =>
        rw [Relay.forward_of_fault linkage.backplane op now hborrow hanswer hconverse] at hrouted
        subst hrouted
        have hspoiled : (linkage.spoil back).id = link.id := (hlinkage.same back).trans hid
        refine ⟨hreturned _ _ hspoiled, .inr ⟨_, hrecorded _, rfl, hfront, hleads, ?_⟩⟩
        intro _ _
        have hclosed := Pool.closed_giveBack_of_not_valid (hlinkage.spoils borrowed.outside back) now
          address loan.pool
        show link.id ∈ (loan.closed ++ (loan.pool.giveBack (linkage.valid borrowed.outside) now address
          (linkage.spoil back)).closed).map (·.id)
        rw [hclosed, List.map_append, List.map_singleton, hspoiled]
        exact List.mem_append_right _ List.mem_cons_self

end Tidy

namespace Station

def closes (linkage : Linkage ω) (owner : Octets → Address) (station : Station ω) : Move ω → List Link
  | .route now request =>
    (Relay.route linkage.backplane owner now request station.pool station.world).closed
  | .sweep now => (station.pool.sweep (linkage.valid station.world.outside) now).closed
  | .elapse _ => []

def closedIn (linkage : Linkage ω) (owner : Octets → Address) : List (Move ω) → Station ω → List Link
  | [], _ => []
  | m :: moves, station =>
    station.closes linkage owner m ++ closedIn linkage owner moves (station.move linkage owner m)

variable {linkage : Linkage ω} {owner : Octets → Address} {station : Station ω}

theorem route_of_settled {request : Packet} (h : ∀ key, ¬ request.AddressedTo key) (now : Nat) :
    station.move linkage owner (.route now request) = station ∧
      station.closes linkage owner (.route now request) = [] := by
  match herrand : Relay.errand request with
  | .settled reply => simp only [move, route, closes, Relay.route, herrand, and_self]
  | .forward op key => exact absurd ⟨op, Relay.errand_eq_forward_iff.mp herrand⟩ (h key)

theorem tidy_move {closed : List Nat} (h : Tidy station.pool station.world [] closed)
    (hlinkage : linkage.Marking) (m : Move ω) :
    Tidy (station.move linkage owner m).pool (station.move linkage owner m).world []
      (closed ++ (station.closes linkage owner m).map (·.id)) := by
  cases m with
  | route now request =>
    match herrand : Relay.errand request with
    | .settled reply =>
      simp only [move, route, closes, Relay.route, herrand, List.map_nil, List.append_nil]
      exact h
    | .forward op key =>
      simp only [move, route, closes, Relay.route, herrand]
      exact (h.forward hlinkage now op (owner key) request rfl).1
  | sweep now => exact h.sweep (linkage.valid station.world.outside) now
  | elapse outside =>
    simp only [move, closes, List.map_nil, List.append_nil]
    exact h.of_plans rfl

theorem tidy_run {closed : List Nat} (h : Tidy station.pool station.world [] closed)
    (hlinkage : linkage.Marking) (moves : List (Move ω)) :
    Tidy (station.run linkage owner moves).pool (station.run linkage owner moves).world []
      (closed ++ (closedIn linkage owner moves station).map (·.id)) := by
  induction moves generalizing station closed with
  | nil =>
    rw [closedIn, List.map_nil, List.append_nil]
    exact h
  | cons m moves ih =>
    rw [closedIn, List.map_append, ← List.append_assoc]
    exact ih (tidy_move h hlinkage m)

/-- Whatever a station has been through, and so after every request:

* each link that was made is idle in one place or was closed once, and there are no others;
* at most one link is idle under an address, and it leads there;
* a request that some backend has to answer is written, in part or as a whole, to one link at most and once, and
  that link leads to the owner of the key; if the exchange fails the link is closed before the reply;
* any other request leaves the station as it is, and nothing is closed. -/
theorem links_kept_apart {linkage : Linkage ω} (hlinkage : linkage.Marking) (owner : Octets → Address)
    (lifetime : Nat) (outside : ω) (moves : List (Move ω)) :
    let station := run linkage owner moves (new lifetime outside)
    let closed := closedIn linkage owner moves (new lifetime outside)
    (station.pool.idle.map (·.id) ++ closed.map (·.id)).Perm (List.range station.world.plans.length) ∧
      (∀ address, (station.pool.queue address).length ≤ 1 ∧
        ∀ entry ∈ station.pool.queue address, station.world.LeadsTo entry.conn.id address) ∧
      ∀ now request,
        let after := station.move linkage owner (.route now request)
        let closing := station.closes linkage owner (.route now request)
        (∀ key, request.AddressedTo key →
          after.world.log = station.world.log ∨
            ∃ past, after.world.log = station.world.log ++ [past] ∧
              SentOnce request (owner key) after.world closing past) ∧
        ((∀ key, ¬ request.AddressedTo key) → after = station ∧ closing = []) := by
  intro station closed
  have h : Tidy station.pool station.world [] ([] ++ closed.map (·.id)) :=
    tidy_run (Tidy.new lifetime outside) hlinkage moves
  refine ⟨?_, fun address => ⟨h.single address, h.home address⟩, ?_⟩
  · have hplaced := h.placed
    rwa [List.append_nil] at hplaced
  · intro now request after closing
    refine ⟨?_, fun hother => route_of_settled hother now⟩
    rintro key ⟨op, hkeyed⟩
    have herrand := Relay.errand_eq_forward_iff.mpr hkeyed
    have hforward := (h.forward hlinkage now op (owner key) request rfl).2
    simp only [after, closing, move, route, closes, Relay.route, herrand]
    exact hforward

/-- A backend that gives one answer, and then a link that breaks while the next request is written. -/
def breaking : Linkage Unit :=
  steady [interrupted (Packet.encode ⟨{ magic := 0x81 }, []⟩),
    { writes := [.take 5, .fail ⟨.brokenPipe, ""⟩] }]

/-- The second request of a key meets the end of its link, which is closed. -/
theorem links_kept_apart_broken_link :
    ∃ (request : Packet) (address : Address) (station after : Station Unit) (closing : List Link)
        (past : Exchanged),
      request = ⟨{ magic := 0x80, keyLength := 1, totalBody := 1 }, [107]⟩ ∧
        breaking.Marking ∧ request.AddressedTo [107] ∧
        run breaking (fun _ => address) [.route 0 request, .sweep 3, .elapse ()] (new 60 ()) = station ∧
        station.move breaking (fun _ => address) (.route 7 request) = after ∧
        station.closes breaking (fun _ => address) (.route 7 request) = closing ∧
        station.pool.idle.map (·.id) = [0] ∧ after.world.log = station.world.log ++ [past] ∧
        past.accepted.length = 5 ∧ SentOnce request address after.world closing past ∧
        closing.map (·.id) = [0] ∧ after.pool.idle.map (·.id) = [] := by
  have hmarking : breaking.Marking := ⟨fun _ _ => rfl, fun _ => rfl⟩
  have haddressed : Packet.AddressedTo ⟨{ magic := 0x80, keyLength := 1, totalBody := 1 }, [107]⟩ [107] :=
    ⟨.get, rfl, rfl, rfl⟩
  obtain ⟨-, -, hnext⟩ := links_kept_apart hmarking (fun _ => ⟨.v4 127 0 0 1, 11211⟩) 60 ()
    [.route 0 ⟨{ magic := 0x80, keyLength := 1, totalBody := 1 }, [107]⟩, .sweep 3, .elapse ()]
  rcases (hnext 7 _).1 [107] haddressed with hnone | ⟨past, hlog, hsent⟩
  · exact absurd (congrArg (List.map (·.accepted.length)) hnone) (by decide +kernel)
  · have hlengths : [25, 5] = _ :=
      Eq.trans (by decide +kernel) (congrArg (List.map (·.accepted.length)) hlog)
    have hlast := congrArg List.getLast? hlengths
    rw [List.map_append, List.map_singleton, List.getLast?_concat] at hlast
    exact ⟨_, _, _, _, _, past, rfl, hmarking, haddressed, rfl, rfl, rfl, by decide +kernel, hlog,
      (Option.some.inj hlast).symm, hsent, by decide +kernel, by decide +kernel⟩

end Station

end ShardedCache
