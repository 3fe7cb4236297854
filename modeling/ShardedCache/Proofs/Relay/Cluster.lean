import ShardedCache.Proofs.Relay.Outcomes
import ShardedCache.Proofs.Relay.Quiet

namespace ShardedCache

structure Cluster where
  pool : Pool Address Line
  world : Backends

namespace Cluster

/-- How a cluster is set up.  The limit is that of the relay for its clients and of every server. -/
structure Setup where
  owner : Octets → Address
  transit : Transit
  limit : Nat
  expiry : IoError
  usable : Backends → Line → Bool
  spoil : Line → Line
  spoiled : ∀ world line, usable world (spoil line) = false

/-- The servers as the relay of a cluster reaches them. -/
def Setup.plane (setup : Setup) : Backplane Line Backends :=
  Backends.patientPlane setup.transit setup.limit setup.expiry setup.usable setup.spoil

inductive Event where
  | relayed (now : Nat) (request : Packet)
  | direct (address : Address) (now : Nat) (request : Packet)
  | sweep (now : Nat)

def Event.request? : Event → Option Packet
  | .relayed _ request | .direct _ _ request => some request
  | .sweep _ => none

def Event.Assembled (limit : Nat) (event : Event) : Prop :=
  ∀ request, event.request? = some request → request.Assembled limit

def new (lifetime : Nat) : Cluster :=
  { pool := { lifetime := lifetime }, world := {} }

def route (setup : Setup) (now : Nat) (request : Packet) (cluster : Cluster) : Reply × Cluster :=
  let routed := Relay.route setup.plane setup.owner now request cluster.pool
    { cluster.world with clock := now }
  (routed.reply, ⟨routed.pool, routed.world⟩)

def step (setup : Setup) (cluster : Cluster) : Event → Cluster
  | .relayed now request => (cluster.route setup now request).2
  | .direct address now request =>
    { cluster with
      world := cluster.world.put address
        (Service.answer request now (cluster.world.stores address)).2 }
  | .sweep now => { cluster with pool := (cluster.pool.sweep (setup.usable cluster.world) now).pool }

def run (setup : Setup) (events : List Event) (cluster : Cluster) : Cluster :=
  events.foldl (step setup) cluster

/-- Idle connections are ready, and what is stored came about by answering requests. -/
structure Sound (cluster : Cluster) : Prop where
  idle : ∀ address, ∀ entry ∈ cluster.pool.queue address, entry.conn.Ready address
  reachable : ∀ address, Service.Reachable (cluster.world.stores address)

theorem sound_new (lifetime : Nat) : (new lifetime).Sound := by
  refine ⟨?_, fun _ => .empty⟩
  intro address entry hentry
  cases hentry

end Cluster

/-- What a client hears of what the owner of its key answers.  What is longer than a relay reads is lost, and silence
is taken for a failure. -/
def Relay.through (request : Packet) : Except Fault Reply → Reply
  | .ok (.send bytes) =>
    if bytes.length ≤ Header.size + Frame.defaultLimit then .send bytes
    else .status request.header .internalError
  | _ => .status request.header .internalError

theorem Relay.through_send (request : Packet) (bytes : Octets) :
    through request (.ok (.send bytes)) =
      if bytes.length ≤ Header.size + Frame.defaultLimit then .send bytes
      else .status request.header .internalError := by
  rw [through]

theorem Link.exchange_of_long (link : Link) (exchange : Exchange) (request : Octets) {response : Packet}
    (hplan : link.plan = [exchange]) (hinlet : ∀ event ∈ link.inlet, event.flows)
    (hdrained : Inlet.arriving link.inlet = [])
    (harrive : Inlet.arriving exchange.reads = response.encode) (hcomplete : response.Complete)
    (hlong : Frame.defaultLimit < response.body.length) :
    ∃ accepted fault after, link.exchange request = (accepted, .error fault, after) := by
  match hexchange : link.exchange request with
  | (accepted, .error fault, after) => exact ⟨accepted, fault, after, rfl⟩
  | (accepted, .ok frame, after) =>
    have hok : (link.exchange request).2.1 = .ok frame := by rw [hexchange]
    obtain ⟨-, total, hbrings, -⟩ := (Link.exchange_ok_iff link request frame).mp hok
    have hunread : link.unread = response.header.encode ++ response.body := by
      rw [Link.unread, Link.next, hplan, List.head?_cons, Option.getD_some,
        Inlet.arriving_append_of_flows link.inlet exchange.reads hinlet, hdrained, harrive]
      rfl
    have hannounced := hbrings.announced
    rw [hunread, Header.peekTotalBody?_encode_append] at hannounced
    obtain rfl := Option.some.inj hannounced
    have hallowed := hbrings.allowed
    have htotal : response.header.totalBody.toNat = response.body.length := hcomplete
    omega

namespace Backends

variable {transit : Transit} {limit : Nat} {expiry : IoError} {world : Backends} {address : Address}
  {line : Line} {request : Packet}

theorem await_of_long (transit : Transit) (expiry : IoError) (hline : line.Ready address)
    {response : Packet} (hrequest : request.Assembled limit)
    (hreply : (Service.answer request world.clock (world.stores address)).1 =
      .ok (.send response.encode))
    (hresponds : Responds request response) (hlong : Frame.defaultLimit < response.body.length) :
    ∃ fault after,
      await transit limit expiry request.encode line world =
        (.error fault, after,
          world.put address (Service.answer request world.clock (world.stores address)).2) := by
  obtain rfl := hline.peer
  obtain ⟨left, hpush, -⟩ := WriteEvent.pushAll_of_flows .shortWrite request.encode
    (writes_flow transit hline world.traffic)
  obtain ⟨sink, hprogress, hopen⟩ := hline.resting
  obtain ⟨sent, hserve, -⟩ :=
    serve_ready transit hprogress hopen hrequest (Prod.ext hreply rfl) rfl
  have hoctets : (Reply.send response.encode).octets = response.encode := rfl
  have hsize : 0 < response.encode.length := by
    rw [Packet.length_encode, Packet.encodedLength]
    omega
  have hwritten : response.encode ≠ [] := List.ne_nil_of_length_pos hsize
  let exchange : Exchange :=
    { reads := transit.outbound world.traffic response.encode
      writes := transit.writes world.traffic }
  obtain ⟨accepted, fault, link, hexchange⟩ :=
    Link.exchange_of_long (line.facing exchange) exchange request.encode rfl hline.inlet
      hline.drained (transit.arriving_outbound world.traffic response.encode) hresponds.complete hlong
  refine ⟨fault, { link, progress := .reading { outbox := { sink := sent } } }, ?_⟩
  simp only [await, converse, hpush, hserve, hoctets, if_neg hwritten]
  rw [hexchange]

/-- The store at the far end answers a keyed request once.  The relay hears a response that it can read, or its
exchange fails. -/
theorem await_cases (transit : Transit) (expiry : IoError) (hline : line.Ready address)
    (hrequest : request.Assembled limit) {op : Opcode} {key : Octets}
    (herrand : Relay.errand request = .forward op key)
    (hreachable : Service.Reachable (world.stores address)) :
    ∃ answer after,
      await transit limit expiry request.encode line world =
          (answer, after,
            world.put address (Service.answer request world.clock (world.stores address)).2) ∧
        ((∃ fault, answer = .error fault ∧
            Relay.through request (Service.answer request world.clock (world.stores address)).1 =
              .status request.header .internalError) ∨
          ∃ response, answer = .ok response ∧ after.Ready address ∧
            Relay.through request (Service.answer request world.clock (world.stores address)).1 =
              Relay.conclude op response) := by
  obtain ⟨hcommand, hop, hkey⟩ := Relay.errand_eq_forward_iff.mp herrand
  rcases Service.keyed_responds (by decide) hcommand hop hkey hreachable.stocked world.clock with
    hsilent | ⟨response, hreply, hresponds, -, hstatus⟩
  · obtain ⟨fault, after, hawait⟩ := await_of_silent transit expiry hline hrequest hsilent
    exact ⟨_, after, hawait, .inl ⟨fault, rfl, by rw [hsilent]; rfl⟩⟩
  have hlength : response.encode.length = Header.size + response.body.length := by
    rw [Packet.length_encode, Packet.encodedLength]
  by_cases hfits : response.body.length ≤ Frame.defaultLimit
  · obtain ⟨after, hawait, hafter⟩ := await_of_send transit expiry hline hrequest hreply hresponds hfits
    refine ⟨_, after, hawait, .inr ⟨response.encode, rfl, hafter, ?_⟩⟩
    have hread : response.encode.length ≤ Header.size + Frame.defaultLimit := by omega
    rw [Relay.conclude_of_keyed hop, if_neg fun hquiet => hstatus hquiet.1 hquiet.2, hreply,
      Relay.through_send, if_pos hread]
  · have hlong : Frame.defaultLimit < response.body.length := Nat.lt_of_not_le hfits
    obtain ⟨fault, after, hawait⟩ := await_of_long transit expiry hline hrequest hreply hresponds hlong
    refine ⟨_, after, hawait, .inl ⟨fault, rfl, ?_⟩⟩
    have hunread : ¬ response.encode.length ≤ Header.size + Frame.defaultLimit := by omega
    rw [hreply, Relay.through_send, if_neg hunread]

end Backends

namespace Cluster

variable {setup : Setup} {cluster : Cluster} {request : Packet} {op : Opcode} {key : Octets}

theorem route_of_forward (h : cluster.Sound) (hrequest : request.Assembled setup.limit)
    (herrand : Relay.errand request = .forward op key) (now : Nat) :
    (cluster.route setup now request).1 =
        Relay.through request
          (Service.answer request now (cluster.world.stores (setup.owner key))).1 ∧
      (cluster.route setup now request).2.world.stores =
        (cluster.world.put (setup.owner key)
          (Service.answer request now (cluster.world.stores (setup.owner key))).2).stores ∧
      ∀ address, ∀ entry ∈ (cluster.route setup now request).2.pool.queue address,
        entry.conn.Ready address := by
  obtain ⟨loan, borrowed, line, hborrow, hanswer, hready, hidle, hsame, hclock⟩ :=
    Backends.borrow_ready setup.transit setup.limit (setup.usable { cluster.world with clock := now })
      (setup.owner key) { cluster.world with clock := now } h.idle
  have hstore : borrowed.stores (setup.owner key) = cluster.world.stores (setup.owner key) :=
    congrFun hsame (setup.owner key)
  have hreachable : Service.Reachable (borrowed.stores (setup.owner key)) := by
    rw [hstore]
    exact h.reachable (setup.owner key)
  obtain ⟨answer, after, hawait, hheard⟩ :=
    Backends.await_cases setup.transit setup.expiry hready hrequest herrand hreachable
  have hnow : borrowed.clock = now := hclock
  rw [hstore, hnow] at hawait hheard
  have hput (store : Store) : (borrowed.put (setup.owner key) store).stores =
      (cluster.world.put (setup.owner key) store).stores := by
    simp only [Backends.put, hsame]
  rcases hheard with ⟨fault, rfl, hthrough⟩ | ⟨response, rfl, hback, hthrough⟩
  · have hforward := Relay.forward_of_fault setup.plane op now hborrow hanswer hawait
    simp only [route, Relay.route, herrand, hforward]
    refine ⟨hthrough.symm, hput _, ?_⟩
    intro address entry hentry
    have hgone (world : Backends) :
        (loan.pool.giveBack (setup.usable world) now (setup.owner key) (setup.spoil after)).pool =
          loan.pool :=
      Pool.giveBack_of_not_valid (setup.spoiled world after) now (setup.owner key) loan.pool
    have hkept : entry ∈ loan.pool.queue address := by
      rw [← hgone]
      exact hentry
    exact hidle address entry hkept
  · have hforward := Relay.forward_of_frame setup.plane op now hborrow hanswer hawait
    simp only [route, Relay.route, herrand, hforward]
    refine ⟨hthrough.symm, hput _, ?_⟩
    intro address entry hentry
    rcases Pool.mem_queue_giveBack hentry with hentry | ⟨rfl, rfl⟩
    · exact hidle address entry hentry
    · exact hback

/-- What an event does to a cluster: idle connections stay ready, and of each store it leaves what was there, or what
answering its request leaves. -/
theorem step_cases (h : cluster.Sound) {event : Event} (hassembled : event.Assembled setup.limit) :
    (∀ address, ∀ entry ∈ (step setup cluster event).pool.queue address,
        entry.conn.Ready address) ∧
      ∀ address, (step setup cluster event).world.stores address = cluster.world.stores address ∨
        ∃ request now, event.request? = some request ∧
          (step setup cluster event).world.stores address =
            (Service.answer request now (cluster.world.stores address)).2 := by
  have hput (address : Address) (now : Nat) (request : Packet) (other : Address) :
      (cluster.world.put address
            (Service.answer request now (cluster.world.stores address)).2).stores other =
          cluster.world.stores other ∨
        (cluster.world.put address
            (Service.answer request now (cluster.world.stores address)).2).stores other =
          (Service.answer request now (cluster.world.stores other)).2 := by
    by_cases hother : other = address
    · subst hother
      right
      simp only [Backends.put, if_true]
    · left
      simp only [Backends.put, if_neg hother]
  cases event with
  | relayed now request =>
    cases herrand : Relay.errand request with
    | settled reply =>
      have hsettled : step setup cluster (.relayed now request) =
          { cluster with world := { cluster.world with clock := now } } := by
        simp only [step, route, Relay.route, herrand]
      rw [hsettled]
      exact ⟨h.idle, fun _ => .inl rfl⟩
    | forward op key =>
      obtain ⟨-, hstores, hidle⟩ := route_of_forward h (hassembled request rfl) herrand now
      refine ⟨hidle, ?_⟩
      intro address
      rw [step, hstores]
      rcases hput (setup.owner key) now request address with hsame | hanswered
      · exact .inl hsame
      · exact .inr ⟨request, now, rfl, hanswered⟩
  | direct address now request =>
    refine ⟨h.idle, ?_⟩
    intro other
    rcases hput address now request other with hsame | hanswered
    · exact .inl hsame
    · exact .inr ⟨request, now, rfl, hanswered⟩
  | sweep now =>
    refine ⟨?_, fun _ => .inl rfl⟩
    intro address entry hentry
    have hkept : entry ∈ cluster.pool.queue address := by
      rw [step, Pool.queue_sweep] at hentry
      exact (List.mem_filter.mp hentry).1
    exact h.idle address entry hkept

theorem sound_step (h : cluster.Sound) {event : Event} (hassembled : event.Assembled setup.limit) :
    (step setup cluster event).Sound := by
  obtain ⟨hidle, hstores⟩ := step_cases h hassembled
  refine ⟨hidle, ?_⟩
  intro address
  rcases hstores address with hsame | ⟨request, now, hrequest, hanswered⟩
  · rw [hsame]
    exact h.reachable address
  · rw [hanswered]
    exact (h.reachable address).answer now (hassembled request hrequest)

theorem run_keeps (holds : Cluster → Prop) {allowed : Event → Prop}
    (hstep : ∀ cluster event, holds cluster → allowed event → holds (step setup cluster event))
    (h : holds cluster) {events : List Event} (hallowed : ∀ event ∈ events, allowed event) :
    holds (run setup events cluster) := by
  induction events generalizing cluster with
  | nil => exact h
  | cons event events ih =>
    have hnext := hstep cluster event h (hallowed event List.mem_cons_self)
    exact ih hnext fun other hother => hallowed other (List.mem_cons_of_mem event hother)

theorem sound_run (h : cluster.Sound) {events : List Event}
    (hassembled : ∀ event ∈ events, event.Assembled setup.limit) :
    (run setup events cluster).Sound := by
  have hstep (cluster : Cluster) (event : Event) (h : cluster.Sound)
      (hevent : event.Assembled setup.limit) : (step setup cluster event).Sound :=
    sound_step h hevent
  exact run_keeps Cluster.Sound hstep h hassembled

end Cluster

end ShardedCache
