import ShardedCache.Proofs.Pool.Queues
import ShardedCache.Proofs.Relay.Errands
import ShardedCache.Proofs.Relay.Linkage
import ShardedCache.Proofs.Session.Delivery

/-! Every idle link has consumed exactly the answers to the requests written to it (`InStep`).  A station keeps to
that whatever its links go through (`Lockstep.run`). -/

namespace ShardedCache

/-- An exchange that succeeds has written its request, and its answer is what was planned for it.  It leaves
nothing behind on the link. -/
theorem Link.exchange_in_step {link after : Link} {request accepted : Octets}
    {answer : Except Fault Octets} (hdrained : Inlet.arriving link.inlet = [])
    (hframed : ∀ exchange ∈ link.plan, exchange.Framed)
    (h : link.exchange request = (accepted, answer, after)) :
    after.id = link.id ∧
      ∀ frame, answer = .ok frame →
        accepted = request ∧ after.plan = link.plan.tail ∧ Inlet.arriving after.inlet = [] ∧
          ∃ exchange, link.plan.head? = some exchange ∧ Inlet.arriving exchange.reads = frame := by
  have hnext : (link.plan.head?.getD {}).Framed := by
    cases hhead : link.plan.head? with
    | none => exact ⟨⟨{}, []⟩, rfl, List.nil_prefix⟩
    | some exchange => exact hframed exchange (List.mem_of_mem_head? hhead)
  rcases hpush : WriteEvent.pushAll .shortWrite (link.writes ++ (link.plan.head?.getD {}).writes)
    request with ⟨taken, error | _, writes⟩
  · simp only [exchange, hpush, Prod.mk.injEq] at h
    obtain ⟨-, rfl, rfl⟩ := h
    exact ⟨rfl, by simp⟩
  have htaken := WriteEvent.accepted_of_pushAll_ok hpush
  cases hflush : (link.plan.head?.getD {}).flushError with
  | some error =>
    simp only [exchange, hpush, hflush, Prod.mk.injEq] at h
    obtain ⟨-, rfl, rfl⟩ := h
    exact ⟨rfl, by simp⟩
  | none =>
    rcases hread : Inlet.readFrame Frame.defaultLimit
      (link.inlet ++ (link.plan.head?.getD {}).reads) with ⟨fault | frame, rest⟩
    · simp only [exchange, hpush, hflush, hread, Prod.mk.injEq] at h
      obtain ⟨-, rfl, rfl⟩ := h
      exact ⟨rfl, by simp⟩
    simp only [exchange, hpush, hflush, hread] at h
    split at h
    · simp only [Prod.mk.injEq] at h
      obtain ⟨rfl, rfl, rfl⟩ := h
      refine ⟨rfl, ?_⟩
      rintro _ ⟨⟩
      obtain ⟨p, hp, hreads⟩ := hnext
      obtain ⟨hframe, hrest, hne⟩ := Inlet.readFrame_of_isPrefix hdrained hp hreads hread
      refine ⟨htaken, rfl, hrest, ?_⟩
      cases hhead : link.plan.head? with
      | none =>
        rw [hhead] at hframe
        exact absurd hframe.symm hne
      | some exchange =>
        rw [hhead] at hframe
        exact ⟨exchange, rfl, hframe⟩
    · simp only [Prod.mk.injEq] at h
      obtain ⟨-, rfl, rfl⟩ := h
      exact ⟨rfl, by simp⟩

variable {ω : Type}

/-- The link leads to `address`, no exchange on it failed, and it has consumed the answers to the requests
written to it and nothing else. -/
structure InStep (world : Logged ω) (address : Address) (link : Link) : Prop where
  planned : ∃ plan, world.plans[link.id]? = some (address, plan) ∧
    link.plan = plan.drop (world.completed link.id)
  drained : Inlet.arriving link.inlet = []
  unfailed : ∀ past ∈ world.log, past.link = link.id → ∃ frame, past.answer = .ok frame

namespace InStep

variable {world after : Logged ω} {address : Address} {link : Link}

theorem of_grown (h : InStep world address link) {more : List (Address × List Exchange)}
    (hplans : after.plans = world.plans ++ more) (hlog : after.log = world.log) :
    InStep after address link := by
  obtain ⟨plan, hplan, hdrop⟩ := h.planned
  obtain ⟨hlt, -⟩ := List.getElem?_eq_some_iff.mp hplan
  refine ⟨⟨plan, ?_, ?_⟩, h.drained, ?_⟩
  · rw [hplans, List.getElem?_append_left hlt]
    exact hplan
  · rw [Logged.completed, hlog]
    exact hdrop
  · rw [hlog]
    exact h.unfailed

theorem record_of_ne (h : InStep world address link) {past : Exchanged} (hne : past.link ≠ link.id) :
    InStep (world.record past) address link := by
  have hcompleted : (world.record past).completed link.id = world.completed link.id := by
    simp [Logged.completed, Logged.record, List.countP_append, hne]
  refine ⟨?_, h.drained, ?_⟩
  · rw [hcompleted]
    exact h.planned
  · intro earlier hearlier hlink
    rcases List.mem_append.mp hearlier with hearlier | hearlier
    · exact h.unfailed earlier hearlier hlink
    · obtain rfl := List.mem_singleton.mp hearlier
      exact absurd hlink hne

end InStep

structure Lockstep (station : Station ω) : Prop where
  idle : ∀ address, ∀ entry ∈ station.pool.queue address, InStep station.world address entry.conn
  distinct : ∀ address,
    (station.pool.queue address).Pairwise fun entry other => entry.conn.id ≠ other.conn.id
  framed : ∀ plan ∈ station.world.plans, ∀ exchange ∈ plan.2, exchange.Framed
  numbered : ∀ past ∈ station.world.log, past.link < station.world.plans.length
  once : station.world.log.Pairwise fun earlier later =>
    earlier.link = later.link → ∃ frame, earlier.answer = .ok frame

/-- A link on loan: it is in step and lies in no queue. -/
structure OnLoan (station : Station ω) (address : Address) (link : Link) : Prop where
  inStep : InStep station.world address link
  apart : ∀ other, ∀ entry ∈ station.pool.queue other, entry.conn.id ≠ link.id

namespace Lockstep

variable {linkage : Linkage ω} {station : Station ω} {pool : Pool Address Link} {world : Logged ω}
  {address : Address} {link : Link}

theorem new (lifetime : Nat) (outside : ω) : Lockstep (Station.new lifetime outside) :=
  ⟨nofun, fun _ => .nil, nofun, nofun, .nil⟩

theorem id_ne_of_peer_ne {other : Address} {link₁ link₂ : Link} (h₁ : InStep world address link₁)
    (h₂ : InStep world other link₂) (hne : other ≠ address) : link₂.id ≠ link₁.id := by
  intro hid
  obtain ⟨plan₁, hplan₁, -⟩ := h₁.planned
  obtain ⟨plan₂, hplan₂, -⟩ := h₂.planned
  rw [hid, hplan₁] at hplan₂
  exact hne (Prod.mk.inj (Option.some.inj hplan₂)).1.symm

theorem of_sublist (h : Lockstep station)
    (hqueue : ∀ address, (pool.queue address).Sublist (station.pool.queue address)) :
    Lockstep ⟨pool, station.world⟩ :=
  ⟨fun address entry hentry => h.idle address entry ((hqueue address).subset hentry),
    fun address => (h.distinct address).sublist (hqueue address), h.framed, h.numbered, h.once⟩

theorem sweep (h : Lockstep station) (valid : Link → Bool) (now : Nat) :
    Lockstep ⟨(station.pool.sweep valid now).pool, station.world⟩ := by
  refine h.of_sublist fun address => ?_
  rw [Pool.queue_sweep]
  exact List.filter_sublist

theorem elapse (h : Lockstep station) (outside : ω) :
    Lockstep ⟨station.pool, { station.world with outside := outside }⟩ :=
  ⟨fun address entry hentry =>
      (h.idle address entry hentry).of_grown (List.append_nil _).symm rfl,
    h.distinct, h.framed, h.numbered, h.once⟩

/-- Connecting keeps a station in lockstep; a new link is on loan, with nothing written to it. -/
theorem dial (h : Lockstep station) (hlinkage : linkage.Sound) (address : Address) :
    Lockstep ⟨station.pool, (linkage.dial address station.world).2⟩ ∧
      (linkage.dial address station.world).2.log = station.world.log ∧
      ∀ link, (linkage.dial address station.world).1 = .ok link →
        OnLoan ⟨station.pool, (linkage.dial address station.world).2⟩ address link := by
  match hconnect : linkage.connect address station.world.outside with
  | (.refuse error, outside) =>
    simp only [Linkage.dial, hconnect]
    exact ⟨h.elapse outside, trivial, nofun⟩
  | (.accept exchanges lifespan, outside) =>
    simp only [Linkage.dial, hconnect]
    have hnew := hlinkage.frames address station.world.outside exchanges lifespan outside hconnect
    refine ⟨⟨?_, h.distinct, ?_, ?_, h.once⟩, trivial, ?_⟩
    · intro other entry hentry
      exact (h.idle other entry hentry).of_grown rfl rfl
    · intro plan hplan
      rcases List.mem_append.mp hplan with hplan | hplan
      · exact h.framed plan hplan
      · obtain rfl := List.mem_singleton.mp hplan
        exact hnew
    · intro past hpast
      have hlt := h.numbered past hpast
      simp only [List.length_append, List.length_singleton]
      omega
    · rintro _ ⟨⟩
      have hunused : ∀ past ∈ station.world.log, past.link ≠ station.world.plans.length :=
        fun past hpast => Nat.ne_of_lt (h.numbered past hpast)
      have hzero : station.world.completed station.world.plans.length = 0 := by
        rw [Logged.completed, List.countP_eq_zero]
        intro past hpast
        simp [hunused past hpast]
      refine ⟨⟨⟨exchanges, List.getElem?_concat_length, ?_⟩, rfl, ?_⟩, ?_⟩
      · exact (congrArg (List.drop · exchanges) hzero).symm
      · intro past hpast hlink
        exact absurd hlink (hunused past hpast)
      · intro other entry hentry
        obtain ⟨plan, hplan, -⟩ := (h.idle other entry hentry).planned
        exact Nat.ne_of_lt (List.getElem?_eq_some_iff.mp hplan).1

theorem borrow (h : Lockstep station) (hlinkage : linkage.Sound) (valid : Link → Bool)
    (address : Address) :
    Lockstep ⟨(station.pool.borrow valid (linkage.dial address) address station.world).1.pool,
        (station.pool.borrow valid (linkage.dial address) address station.world).2⟩ ∧
      (station.pool.borrow valid (linkage.dial address) address station.world).2.log =
        station.world.log ∧
      ∀ link, (station.pool.borrow valid (linkage.dial address) address station.world).1.answer =
          .ok link →
        OnLoan ⟨(station.pool.borrow valid (linkage.dial address) address station.world).1.pool,
          (station.pool.borrow valid (linkage.dial address) address station.world).2⟩ address link := by
  have hsublist (other : Address) :
      ((station.pool.borrow valid (linkage.dial address) address station.world).1.pool.queue
        other).Sublist (station.pool.queue other) :=
    Pool.queue_borrow_sublist valid (linkage.dial address) address station.pool station.world other
  rcases Pool.borrow_cases valid (linkage.dial address) address station.pool station.world with
    ⟨before, entry, rest, hqueue, -, hanswer, hworld, hafter⟩ | ⟨hanswer, hworld, -⟩
  · have hentry : InStep station.world address entry.conn :=
      h.idle address entry (by rw [hqueue]; exact List.mem_append_right before List.mem_cons_self)
    rw [hworld, hanswer]
    refine ⟨h.of_sublist hsublist, rfl, ?_⟩
    rintro _ ⟨⟩
    refine ⟨hentry, ?_⟩
    intro other idle hidle
    by_cases hother : other = address
    · have hdistinct := h.distinct address
      rw [hqueue, List.pairwise_append] at hdistinct
      simp only [hafter, if_pos hother] at hidle
      exact ((List.pairwise_cons.mp hdistinct.2.1).1 idle hidle).symm
    · have hidle' := h.idle other idle ((hsublist other).subset hidle)
      exact id_ne_of_peer_ne hentry hidle' hother
  · obtain ⟨hdial, hlog, hloan⟩ := h.dial hlinkage address
    rw [hworld, hanswer]
    refine ⟨hdial.of_sublist hsublist, hlog, ?_⟩
    intro link hlink
    have honLoan := hloan link hlink
    exact ⟨honLoan.inStep, fun other entry hentry =>
      honLoan.apart other entry ((hsublist other).subset hentry)⟩

/-- An exchange on a link on loan.  If it succeeds the link is in step again, otherwise it is of no more
use. -/
theorem exchange (h : Lockstep station) (hloan : OnLoan station address link) {request accepted : Octets}
    {answer : Except Fault Octets} {after : Link}
    (hexchange : link.exchange request = (accepted, answer, after)) :
    Lockstep ⟨station.pool, station.world.record { link := link.id, request, accepted, answer }⟩ ∧
      ∀ frame, answer = .ok frame →
        accepted = request ∧
          station.world.supplied? link.id (station.world.completed link.id) = some frame ∧
          OnLoan ⟨station.pool, station.world.record { link := link.id, request, accepted, answer }⟩
            address after := by
  obtain ⟨plan, hplan, hdrop⟩ := hloan.inStep.planned
  have hmem : (address, plan) ∈ station.world.plans := List.mem_of_getElem? hplan
  have hframed : ∀ exchange ∈ link.plan, exchange.Framed := by
    intro exchange hexchange
    rw [hdrop] at hexchange
    exact h.framed (address, plan) hmem exchange (List.mem_of_mem_drop hexchange)
  obtain ⟨hid, hanswered⟩ := Link.exchange_in_step hloan.inStep.drained hframed hexchange
  refine ⟨⟨?_, h.distinct, h.framed, ?_, ?_⟩, ?_⟩
  · intro other entry hentry
    exact (h.idle other entry hentry).record_of_ne (hloan.apart other entry hentry).symm
  · intro past hpast
    rcases List.mem_append.mp hpast with hpast | hpast
    · exact h.numbered past hpast
    · obtain rfl := List.mem_singleton.mp hpast
      exact (List.getElem?_eq_some_iff.mp hplan).1
  · refine List.pairwise_append.mpr ⟨h.once, List.pairwise_singleton .., ?_⟩
    intro earlier hearlier later hlater hlink
    obtain rfl := List.mem_singleton.mp hlater
    exact hloan.inStep.unfailed earlier hearlier hlink
  · intro frame hframe
    obtain ⟨hwritten, htail, hdrained, exchange, hhead, hreads⟩ := hanswered frame hframe
    refine ⟨hwritten, ?_, ⟨⟨plan, ?_, ?_⟩, hdrained, ?_⟩, ?_⟩
    · rw [hdrop, List.head?_drop] at hhead
      simp only [Logged.supplied?, hplan, Option.bind_some, hhead, Option.map_some, hreads]
    · rw [hid]
      exact hplan
    · have hcount : (station.world.record { link := link.id, request, accepted, answer }).completed
          after.id = station.world.completed link.id + 1 := by
        simp [Logged.completed, Logged.record, List.countP_append, hid, hwritten]
      rw [htail, hdrop, List.tail_drop, hcount]
    · intro past hpast hlink
      rcases List.mem_append.mp hpast with hpast | hpast
      · exact hloan.inStep.unfailed past hpast (hlink.trans hid)
      · obtain rfl := List.mem_singleton.mp hpast
        exact ⟨frame, hframe⟩
    · intro other entry hentry
      rw [hid]
      exact hloan.apart other entry hentry

theorem giveBack (h : Lockstep station) (hloan : OnLoan station address link) (valid : Link → Bool)
    (now : Nat) :
    Lockstep ⟨(station.pool.giveBack valid now address link).pool, station.world⟩ := by
  refine ⟨?_, ?_, h.framed, h.numbered, h.once⟩
  · intro other entry hentry
    rcases Pool.mem_queue_giveBack hentry with hentry | ⟨rfl, rfl⟩
    · exact h.idle other entry hentry
    · exact hloan.inStep
  · intro other
    rcases Pool.giveBack_cases valid now address link station.pool with ⟨-, hafter⟩ | hafter
    · rw [hafter]
      split
      · refine List.pairwise_append.mpr ⟨h.distinct address, List.pairwise_singleton .., ?_⟩
        intro entry hentry last hlast
        obtain rfl := List.mem_singleton.mp hlast
        exact hloan.apart address entry hentry
      · exact h.distinct other
    · rw [hafter]
      exact h.distinct other

end Lockstep

/-- A reply to a forwarded request, and the exchange that gave it.  Nothing had failed on the link before.  If
the exchange succeeded, its frame is what the link supplied as the answer to this very request: the link had
completed `before.completed` requests until then. -/
structure InTurn (op : Opcode) (request : Packet) (before after : Logged ω) (reply : Reply)
    (past : Exchanged) : Prop where
  sent : past.request = request.encode
  log : after.log = before.log ++ [past]
  unfailed : ∀ earlier ∈ before.log, earlier.link = past.link → ∃ frame, earlier.answer = .ok frame
  relayed : ∀ frame, past.answer = .ok frame →
    past.accepted = request.encode ∧
      after.supplied? past.link (before.completed past.link) = some frame ∧
      reply = if op = .setQ ∧ Header.peekStatus? frame = some 0 then .silent else .send frame
  failed : ∀ fault, past.answer = .error fault → reply = .status request.header .internalError

namespace Lockstep

variable {linkage : Linkage ω} {station : Station ω}

theorem forward (h : Lockstep station) (hlinkage : linkage.Sound) (now : Nat) {op : Opcode}
    (hop : (op.isLookup || op.isPut) = true) (address : Address) (request : Packet)
    {routed : Relay.Routed Link (Logged ω)}
    (hrouted : Relay.forward linkage.backplane now op address request station.pool station.world =
      routed) :
    Lockstep ⟨routed.pool, routed.world⟩ ∧
      (routed.reply = .status request.header .internalError ∧ routed.world.log = station.world.log ∨
        ∃ past, InTurn op request station.world routed.world routed.reply past) := by
  obtain ⟨hborrowed, hlog, hloan⟩ :=
    h.borrow hlinkage (linkage.valid station.world.outside) address
  match hborrow : station.pool.borrow (linkage.valid station.world.outside) (linkage.dial address)
      address station.world with
  | (loan, world) =>
    rw [hborrow] at hborrowed hlog hloan
    match hanswer : loan.answer with
    | .error error =>
      rw [Relay.forward_of_refusal linkage.backplane op now hborrow hanswer] at hrouted
      subst hrouted
      exact ⟨hborrowed, .inl ⟨rfl, hlog⟩⟩
    | .ok link =>
      have honLoan := hloan link hanswer
      have hcompleted : station.world.completed link.id = world.completed link.id := by
        simp only [Logged.completed] at hlog ⊢
        rw [hlog]
      match hexchange : link.exchange request.encode with
      | (accepted, answer, back) =>
        obtain ⟨hrecorded, hanswered⟩ := hborrowed.exchange honLoan hexchange
        have hconverse : linkage.backplane.converse request.encode link world =
            (answer, back,
              world.record { link := link.id, request := request.encode, accepted, answer }) := by
          simp only [Linkage.backplane, hexchange]
        have hunfailed : ∀ earlier ∈ station.world.log, earlier.link = link.id →
            ∃ frame, earlier.answer = .ok frame := by
          rw [← hlog]
          exact honLoan.inStep.unfailed
        have hrecord (past : Exchanged) : (world.record past).log = station.world.log ++ [past] :=
          congrArg (· ++ [past]) hlog
        match answer with
        | .ok frame =>
          obtain ⟨hwritten, hsupplied, hback⟩ := hanswered frame rfl
          rw [Relay.forward_of_frame linkage.backplane op now hborrow hanswer hconverse] at hrouted
          subst hrouted
          refine ⟨hrecorded.giveBack hback _ now, .inr ⟨_, rfl, hrecord _, hunfailed, ?_, nofun⟩⟩
          rintro _ ⟨⟩
          refine ⟨hwritten, ?_, Relay.conclude_of_keyed hop frame⟩
          rw [hcompleted]
          exact hsupplied
        | .error fault =>
          rw [Relay.forward_of_fault linkage.backplane op now hborrow hanswer hconverse] at hrouted
          subst hrouted
          refine ⟨?_, .inr ⟨_, rfl, hrecord _, hunfailed, nofun, fun _ _ => rfl⟩⟩
          -- The pool closes the spoiled link instead of taking it back.
          have hclosed (past : Exchanged) :
              (loan.pool.giveBack (linkage.backplane.usable (world.record past)) now address
                (linkage.backplane.spoil back)).pool = loan.pool :=
            Pool.giveBack_of_not_valid (hlinkage.spoils world.outside back) now address loan.pool
          rw [hclosed]
          exact hrecorded

theorem route (h : Lockstep station) (hlinkage : linkage.Sound) (owner : Octets → Address) (now : Nat)
    (request : Packet) : Lockstep (station.route linkage owner now request).2 := by
  match herrand : Relay.errand request with
  | .settled reply =>
    simp only [Station.route, Relay.route, herrand]
    exact h
  | .forward op key =>
    have hop := (Relay.errand_eq_forward_iff.mp herrand).2.1
    simp only [Station.route, Relay.route, herrand]
    exact (h.forward hlinkage now hop (owner key) request rfl).1

theorem move (h : Lockstep station) (hlinkage : linkage.Sound) (owner : Octets → Address) (m : Move ω) :
    Lockstep (station.move linkage owner m) := by
  cases m with
  | route now request => exact h.route hlinkage owner now request
  | sweep now => exact h.sweep (linkage.valid station.world.outside) now
  | elapse outside => exact h.elapse outside

theorem run (h : Lockstep station) (hlinkage : linkage.Sound) (owner : Octets → Address)
    (moves : List (Move ω)) : Lockstep (station.run linkage owner moves) := by
  induction moves generalizing station with
  | nil => exact h
  | cons m moves ih => exact ih (h.move hlinkage owner m)

end Lockstep

namespace Station

/-- Whatever a station has been through, a request that it forwards is exchanged on a link on which nothing
failed before, and what is relayed is the frame that the link supplied as the answer to that request.  No link
is used again after an exchange on it failed. -/
theorem route_in_turn {linkage : Linkage ω} (hlinkage : linkage.Sound) (owner : Octets → Address)
    (lifetime : Nat) (outside : ω) (moves : List (Move ω)) (now : Nat) (request : Packet)
    {before after : Station ω} {reply : Reply}
    (hrun : run linkage owner moves (new lifetime outside) = before)
    (hroute : before.route linkage owner now request = (reply, after)) :
    (Relay.errand request = .settled reply ∧ after.world.log = before.world.log ∨
      ∃ op key, Relay.errand request = .forward op key ∧
        (reply = .status request.header .internalError ∧ after.world.log = before.world.log ∨
          ∃ past, InTurn op request before.world after.world reply past)) ∧
      after.world.log.Pairwise fun earlier later =>
        earlier.link = later.link → ∃ frame, earlier.answer = .ok frame := by
  have hbefore : Lockstep before := by
    rw [← hrun]
    exact (Lockstep.new lifetime outside).run hlinkage owner moves
  have hafter : Lockstep after := by
    have hrouted := hbefore.route hlinkage owner now request
    rw [hroute] at hrouted
    exact hrouted
  refine ⟨?_, hafter.once⟩
  match herrand : Relay.errand request with
  | .settled answer =>
    simp only [route, Relay.route, herrand, Prod.mk.injEq] at hroute
    obtain ⟨rfl, rfl⟩ := hroute
    exact .inl ⟨rfl, rfl⟩
  | .forward op key =>
    have hop := (Relay.errand_eq_forward_iff.mp herrand).2.1
    have hforward := (hbefore.forward hlinkage now hop (owner key) request rfl).2
    simp only [route, Relay.route, herrand, Prod.mk.injEq] at hroute
    obtain ⟨rfl, rfl⟩ := hroute
    exact .inr ⟨op, key, rfl, hforward⟩

def steady (plan : List Exchange) : Linkage Unit where
  connect _ outside := (.accept plan none, outside)
  valid _ link := !link.spoiled
  spoil link := { link with spoiled := true }

/-- One frame in two chunks, with an interruption between them. -/
def interrupted (frame : Octets) : Exchange where
  reads := [.data (frame.take 10), .fail ⟨.interrupted, ""⟩, .data (frame.drop 10)]

/-- A lookup marked with an echo, which its answer repeats. -/
def lookup (echo : UInt32) : Packet :=
  ⟨{ magic := 0x80, keyLength := 1, totalBody := 1, echo := echo }, [107]⟩

def answerTo (echo : UInt32) : Octets :=
  Packet.encode ⟨{ magic := 0x81, echo := echo }, []⟩

/-- The second lookup on a link is relayed the second frame planned there. -/
theorem route_in_turn_reused_link :
    ∃ (before after : Station Unit) (reply : Reply) (past : Exchanged),
      run (steady [interrupted (answerTo 1), interrupted (answerTo 2)]) (fun _ => ⟨.v4 127 0 0 1, 11211⟩)
          [.route 0 (lookup 1), .sweep 3, .elapse ()] (new 60 ()) = before ∧
        before.route (steady [interrupted (answerTo 1), interrupted (answerTo 2)])
          (fun _ => ⟨.v4 127 0 0 1, 11211⟩) 7 (lookup 2) = (reply, after) ∧
        InTurn .get (lookup 2) before.world after.world reply past ∧
        reply = .send (answerTo 2) ∧ answerTo 2 ≠ answerTo 1 := by
  have hsound : (steady [interrupted (answerTo 1), interrupted (answerTo 2)]).Sound := by
    refine ⟨fun _ _ => rfl, ?_⟩
    rintro address outside exchanges lifespan after ⟨⟩ exchange hexchange
    simp only [List.mem_cons, List.not_mem_nil, or_false] at hexchange
    rcases hexchange with rfl | rfl
    · exact ⟨⟨{ magic := 0x81, echo := 1 }, []⟩, rfl, [], by decide⟩
    · exact ⟨⟨{ magic := 0x81, echo := 2 }, []⟩, rfl, [], by decide⟩
  obtain ⟨hturn, -⟩ := route_in_turn hsound (fun _ => ⟨.v4 127 0 0 1, 11211⟩) 60 ()
    [.route 0 (lookup 1), .sweep 3, .elapse ()] 7 (lookup 2) rfl rfl
  rcases hturn with ⟨hsettled, -⟩ | ⟨op, key, herrand, ⟨hfailed, -⟩ | ⟨past, hpast⟩⟩
  · cases hsettled
  · cases hfailed
  · cases herrand
    exact ⟨_, _, _, past, rfl, rfl, hpast, rfl, by decide⟩

end Station

end ShardedCache
