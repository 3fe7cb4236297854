import ShardedCache.Proofs.Pool.Queues
import ShardedCache.Proofs.Relay.Backends
import ShardedCache.Proofs.Relay.Errands
import ShardedCache.Shards

namespace ShardedCache

theorem Link.exchange_of_flows (link : Link) (exchange : Exchange) (request : Octets)
    {response : Packet} (hplan : link.plan = [exchange]) (hflush : exchange.flushError = none)
    (hwrites : ∀ event ∈ link.writes ++ exchange.writes, event.flows)
    (hinlet : ∀ event ∈ link.inlet, event.flows) (hdrained : Inlet.arriving link.inlet = [])
    (hreads : ∀ event ∈ exchange.reads, event.flows)
    (harrive : Inlet.arriving exchange.reads = response.encode)
    (hcomplete : response.Complete) (hlimit : response.body.length ≤ Frame.defaultLimit)
    (hmagic : response.header.magic = Header.responseMagic) :
    ∃ after, link.exchange request = (request, .ok response.encode, after) ∧
      after.peer = link.peer ∧ (∀ event ∈ after.writes, event.flows) ∧
      (∀ event ∈ after.inlet, event.flows) ∧ Inlet.arriving after.inlet = [] := by
  obtain ⟨writes, hpush, hleft⟩ := WriteEvent.pushAll_of_flows .shortWrite request hwrites
  have hwhole : Inlet.arriving (link.inlet ++ exchange.reads) = response.encode ++ [] := by
    calc Inlet.arriving (link.inlet ++ exchange.reads)
        = Inlet.arriving link.inlet ++ Inlet.arriving exchange.reads :=
          Inlet.arriving_append_of_flows link.inlet exchange.reads hinlet
      _ = [] ++ response.encode := by rw [hdrained, harrive]
      _ = response.encode ++ [] := (List.append_nil response.encode).symm
  obtain ⟨rest, hread, hrest⟩ :=
    Inlet.readFrame_of_arriving hcomplete (Nat.le_trans (Nat.le_of_eq hcomplete) hlimit) hwhole
  have hflows : ∀ event ∈ rest, event.flows := by
    have hboth : ∀ event ∈ link.inlet ++ exchange.reads, event.flows := by
      intro event hevent
      rcases List.mem_append.mp hevent with hevent | hevent
      · exact hinlet event hevent
      · exact hreads event hevent
    have hafter := Inlet.flows_of_readFrame Frame.defaultLimit hboth
    rw [hread] at hafter
    exact hafter
  have hhead : response.encode.headD 0 = Header.responseMagic := by
    rw [Packet.encode, Header.headD_encode_append, hmagic]
  refine ⟨{ link with plan := [], begun := link.begun + 1, writes := writes, inlet := rest }, ?_,
    rfl, hleft, hflows, hrest⟩
  simp only [Link.exchange, hplan, List.head?_cons, Option.getD_some, List.tail_cons, hpush, hflush,
    hread, hhead, if_true]

structure Line.Ready (address : Address) (line : Line) : Prop where
  peer : line.link.peer = address
  writes : ∀ event ∈ line.link.writes, event.flows
  inlet : ∀ event ∈ line.link.inlet, event.flows
  drained : Inlet.arriving line.link.inlet = []
  resting : ∃ sink : Sink, line.progress = .reading { outbox := { sink := sink } } ∧ sink.Open

/-- One store holds what the backends hold together, each key at its owner. -/
structure Mirrors (owner : Octets → Address) (limit : Nat) (single : Store) (pool : Pool Address Line)
    (world : Backends) : Prop where
  stores : ∀ key, (world.stores (owner key)).find? key = single.find? key
  stocked : ∀ address, (world.stores address).Stocked limit
  idle : ∀ address, ∀ entry ∈ pool.queue address, entry.conn.Ready address

/-- A request that is neither quiet nor a NOOP. -/
def Packet.Plain (p : Packet) : Prop :=
  ∀ op, p.header.command? = some op → op.isQuiet = false ∧ op ≠ .noop

theorem Packet.Plain.isQuiet {p : Packet} (h : p.Plain) : p.isQuiet = false := by
  rw [Packet.isQuiet]
  cases hcommand : p.header.command? with
  | none => rfl
  | some op => exact (h op hcommand).1

theorem Answers.eq_send {request : Packet} {reply : Reply} {response? : Option Packet}
    (h : Answers request reply response?) (hquiet : request.isQuiet = false)
    (hquits : request.quits = false) :
    ∃ response, response? = some response ∧ reply = .send response.encode := by
  match response? with
  | none =>
    have hsilent := h.quiet rfl
    rw [hquiet] at hsilent
    cases hsilent
  | some response =>
    refine ⟨response, rfl, ?_⟩
    have hoctets : reply.octets = response.encode := h.octets
    have hcloses : reply.closes = false := h.closes.trans hquits
    have hsize : 0 < response.encode.length := by
      rw [Packet.length_encode, Packet.encodedLength]
      exact Nat.add_pos_left (by decide) _
    cases reply with
    | send bytes => exact congrArg Reply.send hoctets
    | sendAndClose bytes => cases hcloses
    | close => cases hcloses
    | silent =>
      rw [← hoctets] at hsize
      cases hsize
    | flush =>
      rw [← hoctets] at hsize
      cases hsize

namespace Backends

variable {transit : Transit} {limit : Nat} {world : Backends} {address : Address} {line : Line}

theorem dial_ready (transit : Transit) (limit : Nat) (address : Address) (world : Backends) :
    ∃ line, dial transit limit address world =
        (.ok line, world.put address (world.stores address)) ∧ line.Ready address := by
  obtain ⟨sink, hstart, hopen⟩ := Session.start_of_open limit world.handler (world.stores address)
    (transit.sinks_open world.traffic)
  refine ⟨{ link := { id := world.traffic, peer := address, plan := [] }
            progress := .reading { outbox := { sink := sink } } }, ?_, ?_⟩
  · simp only [dial, hstart]
  · exact ⟨rfl, nofun, nofun, rfl, sink, rfl, hopen⟩

theorem borrow_ready (transit : Transit) (limit : Nat) (valid : Line → Bool) (address : Address)
    (world : Backends) {pool : Pool Address Line}
    (hidle : ∀ address, ∀ entry ∈ pool.queue address, entry.conn.Ready address) :
    ∃ loan borrowed line,
      pool.borrow valid (dial transit limit address) address world = (loan, borrowed) ∧
        loan.answer = .ok line ∧ line.Ready address ∧
        (∀ other, ∀ entry ∈ loan.pool.queue other, entry.conn.Ready other) ∧
        borrowed.stores = world.stores ∧ borrowed.clock = world.clock := by
  have hcases := Pool.borrow_cases valid (dial transit limit address) address pool world
  have hsublist := Pool.queue_borrow_sublist valid (dial transit limit address) address pool world
  cases hborrow : pool.borrow valid (dial transit limit address) address world with
  | mk loan borrowed =>
    rw [hborrow] at hcases hsublist
    have hkept : ∀ other, ∀ entry ∈ loan.pool.queue other, entry.conn.Ready other :=
      fun other entry hentry => hidle other entry ((hsublist other).subset hentry)
    rcases hcases with ⟨before, entry, rest, hqueue, -, hanswer, hworld, -⟩ | ⟨hanswer, hworld, -⟩
    · have hentry : entry ∈ pool.queue address := by
        rw [hqueue]
        exact List.mem_append_right before List.mem_cons_self
      simp only at hworld
      subst hworld
      exact ⟨loan, borrowed, entry.conn, rfl, hanswer, hidle address entry hentry, hkept, rfl, rfl⟩
    · obtain ⟨line, hdial, hready⟩ := dial_ready transit limit address world
      rw [hdial] at hanswer hworld
      simp only at hanswer hworld
      subst hworld
      have hsame : (world.put address (world.stores address)).stores = world.stores := by
        funext other
        simp only [put]
        split
        · rename_i heq
          rw [heq]
        · rfl
      exact ⟨loan, _, line, rfl, hanswer, hready, hkept, hsame, rfl⟩

theorem serve_ready (transit : Transit) {sink : Sink}
    (hprogress : line.progress = .reading { outbox := { sink := sink } }) (hopen : sink.Open)
    {request : Packet} {reply : Reply} {store : Store} (hrequest : request.Assembled limit)
    (hanswer : Service.answer request world.clock (world.stores line.link.peer) = (.ok reply, store))
    (hcloses : reply.closes = false) :
    ∃ sent : Sink,
      serve transit limit request.encode line world =
          (reply.octets, .reading { outbox := { sink := sent } }, store) ∧ sent.Open := by
  have harrive : Inlet.arriving (Session.reads (transit.inbound world.traffic request.encode)) =
      request.encode := by
    calc Inlet.arriving (Session.reads (transit.inbound world.traffic request.encode))
        = Inlet.arriving (transit.inbound world.traffic request.encode) := Session.arriving_reads _
      _ = request.encode := transit.arriving_inbound world.traffic request.encode
  have hhandler : world.handler request (world.stores line.link.peer) = (.ok reply, store) := hanswer
  obtain ⟨sent, hfold, hsentOpen, hsent⟩ := Session.foldl_advance_one hrequest
    (Session.reads_flow (transit.inbound_flows world.traffic request.encode)) harrive hopen hhandler
    hcloses
  have hwritten : sent.sent.drop sink.sent.length = reply.octets := by
    rw [hsent, List.drop_left]
  exact ⟨sent, by simp only [serve, hprogress, hfold, Progress.session, hwritten], hsentOpen⟩

theorem writes_flow (transit : Transit) (hline : line.Ready address) (n : Nat) :
    ∀ event ∈ line.link.writes ++ transit.writes n, event.flows := by
  intro event hevent
  rcases List.mem_append.mp hevent with hevent | hevent
  · exact hline.writes event hevent
  · exact transit.writes_flow n event hevent

theorem converse_of_send (transit : Transit) (hline : line.Ready address) {request response : Packet}
    (hrequest : request.Assembled limit)
    (hreply : (Service.answer request world.clock (world.stores address)).1 =
      .ok (.send response.encode))
    (hresponds : Responds request response) (hfits : response.body.length ≤ Frame.defaultLimit) :
    ∃ after,
      converse transit limit request.encode line world =
          (.ok response.encode, after,
            world.put address (Service.answer request world.clock (world.stores address)).2) ∧
        after.Ready address := by
  obtain rfl := hline.peer
  have hwrites := writes_flow transit hline world.traffic
  obtain ⟨left, hpush, -⟩ := WriteEvent.pushAll_of_flows .shortWrite request.encode hwrites
  obtain ⟨sink, hprogress, hopen⟩ := hline.resting
  obtain ⟨sent, hserve, hsentOpen⟩ :=
    serve_ready transit hprogress hopen hrequest (Prod.ext hreply rfl) rfl
  have hoctets : (Reply.send response.encode).octets = response.encode := rfl
  let exchange : Exchange :=
    { reads := transit.outbound world.traffic response.encode
      writes := transit.writes world.traffic }
  obtain ⟨link, hexchange, hpeer, hleft, hinlet, hdrained⟩ :=
    Link.exchange_of_flows (line.facing exchange) exchange request.encode rfl rfl hwrites
      hline.inlet hline.drained (transit.outbound_flows world.traffic response.encode)
      (transit.arriving_outbound world.traffic response.encode) hresponds.complete hfits
      hresponds.magic
  refine ⟨⟨link, .reading { outbox := { sink := sent } }⟩, ?_, ?_⟩
  · simp only [converse, hpush, hserve, hoctets]
    rw [hexchange]
  · exact ⟨hpeer, hleft, hinlet, hdrained, sent, rfl, hsentOpen⟩

/-- There and back: what the store at the far end answers is read as it was written. -/
theorem converse_ready (transit : Transit) (hlimit : limit ≤ Frame.defaultLimit)
    (hline : line.Ready address) {request : Packet} (hrequest : request.Assembled limit)
    (hplain : request.Plain) (hquits : request.quits = false)
    (hstocked : (world.stores address).Stocked limit) :
    ∃ response after,
      (Service.answer request world.clock (world.stores address)).1 = .ok (.send response) ∧
        converse transit limit request.encode line world =
          (.ok response, after,
            world.put address (Service.answer request world.clock (world.stores address)).2) ∧
        after.Ready address := by
  have hdefault : Frame.defaultLimit = 16777216 := rfl
  obtain ⟨reply, response?, hreply, hanswers, hlength⟩ :=
    Service.answer_fits (by omega) hstocked request world.clock
  obtain ⟨response, rfl, rfl⟩ := hanswers.eq_send hplain.isQuiet hquits
  have hfits : response.body.length ≤ Frame.defaultLimit := by
    have hle := hlength response rfl
    omega
  obtain ⟨after, hconverse, hafter⟩ :=
    converse_of_send transit hline hrequest hreply (hanswers.responds response rfl) hfits
  exact ⟨response.encode, after, hreply, hconverse, hafter⟩

end Backends

namespace Mirrors

variable {owner : Octets → Address} {limit : Nat} {single : Store} {pool : Pool Address Line}
  {world : Backends}

theorem new (owner : Octets → Address) (limit lifetime : Nat) :
    Mirrors owner limit {} { lifetime := lifetime } {} := by
  refine ⟨fun _ => rfl, fun _ => Store.stocked_empty limit, ?_⟩
  intro address entry hentry
  cases hentry

theorem borrow (h : Mirrors owner limit single pool world) (transit : Transit) (valid : Line → Bool)
    (address : Address) :
    ∃ loan borrowed line,
      pool.borrow valid (Backends.dial transit limit address) address world = (loan, borrowed) ∧
        loan.answer = .ok line ∧ line.Ready address ∧ Mirrors owner limit single loan.pool borrowed ∧
        borrowed.clock = world.clock := by
  obtain ⟨loan, borrowed, line, hborrow, hanswer, hready, hidle, hsame, hclock⟩ :=
    Backends.borrow_ready transit limit valid address world h.idle
  refine ⟨loan, borrowed, line, hborrow, hanswer, hready, ⟨?_, ?_, hidle⟩, hclock⟩
  · intro key
    rw [hsame]
    exact h.stores key
  · intro other
    rw [hsame]
    exact h.stocked other

theorem put (h : Mirrors owner limit single pool world) {request : Packet} {key : Octets}
    (hkey : request.key? = some key) (hbody : request.body.length ≤ limit) :
    (Service.answer request world.clock (world.stores (owner key))).1 =
        (Service.answer request world.clock single).1 ∧
      Mirrors owner limit (Service.answer request world.clock single).2 pool
        (world.put (owner key)
          (Service.answer request world.clock (world.stores (owner key))).2) := by
  have hown : ∀ own, request.key? = some own →
      (world.stores (owner key)).find? own = single.find? own := by
    intro own hsome
    obtain rfl := Option.some.inj (hkey.symm.trans hsome)
    exact h.stores key
  obtain ⟨hreply, hentry⟩ := Service.answer_local request world.clock hown
  refine ⟨hreply, ?_, ?_, h.idle⟩
  · intro other
    by_cases hother : other = key
    · subst hother
      simp only [Backends.put, if_true]
      exact hentry other hkey
    · have hne : request.key? ≠ some other := by
        intro hsome
        exact hother (Option.some.inj (hsome.symm.trans hkey))
      rw [Service.answer_frame hne, ← h.stores other]
      simp only [Backends.put]
      split
      · rename_i hsame
        rw [Service.answer_frame hne, hsame]
      · rfl
  · intro address
    simp only [Backends.put]
    split
    · exact Service.answer_stocked hbody (h.stocked (owner key))
    · exact h.stocked address

theorem giveBack (h : Mirrors owner limit single pool world) {address : Address} {line : Line}
    (hline : line.Ready address) (valid : Line → Bool) (now : Nat) :
    Mirrors owner limit single (pool.giveBack valid now address line).pool world := by
  refine ⟨h.stores, h.stocked, ?_⟩
  intro other entry hentry
  rcases Pool.mem_queue_giveBack hentry with hentry | ⟨rfl, rfl⟩
  · exact h.idle other entry hentry
  · exact hline

/-- The relay replies what the single store answers, and goes on to mirror it. -/
theorem route (h : Mirrors owner limit single pool world) (transit : Transit)
    (usable : Backends → Line → Bool) (spoil : Line → Line) (hlimit : limit ≤ Frame.defaultLimit)
    {request : Packet} (hrequest : request.Assembled limit) (hplain : request.Plain) (now : Nat)
    {routed : Relay.Routed Line Backends}
    (hrouted : Relay.route (Backends.plane transit limit usable spoil) owner now request pool world =
      routed) :
    (Service.answer request world.clock single).1 = .ok routed.reply ∧
      Mirrors owner limit (Service.answer request world.clock single).2 routed.pool routed.world := by
  match herrand : Relay.errand request with
  | .settled reply =>
    rw [Relay.route, herrand] at hrouted
    subst hrouted
    rw [Relay.answer_of_settled hplain herrand]
    exact ⟨rfl, h⟩
  | .forward op key =>
    obtain ⟨hcommand, hop, hkey⟩ := Relay.errand_eq_forward_iff.mp herrand
    have hquits : request.quits = false :=
      Service.quits_of_command hcommand (by rintro rfl; cases hop) (by rintro rfl; cases hop)
    have hloud : op ≠ .setQ := by
      rintro rfl
      cases (hplain .setQ hcommand).1
    have hbody : request.body.length ≤ limit := by
      rw [← hrequest.total]
      exact hrequest.le_limit
    -- Borrow, converse, hand back: only the exchange changes what is stored.
    obtain ⟨loan, borrowed, line, hborrow, hanswer, hready, hborrowed, hclock⟩ :=
      h.borrow transit (usable world) (owner key)
    obtain ⟨response, after, hreply, hconverse, hback⟩ :=
      Backends.converse_ready transit hlimit hready hrequest hplain hquits
        (hborrowed.stocked (owner key))
    obtain ⟨hsame, hput⟩ := hborrowed.put hkey hbody
    have hforward := Relay.forward_of_frame (Backends.plane transit limit usable spoil) op now
      hborrow hanswer hconverse
    rw [Relay.route, herrand] at hrouted
    simp only at hrouted
    rw [hforward, Relay.conclude_of_keyed hop, if_neg fun hquiet => hloud hquiet.1] at hrouted
    subst hrouted
    rw [← hclock]
    exact ⟨hsame.symm.trans hreply, hput.giveBack hback _ now⟩

end Mirrors

/-- Whatever the chunks in which octets travel and however often connections are reused, a relay over shards
replies to requests that are neither quiet nor a NOOP what one server with one store answers. -/
theorem Backends.relayed_eq_answered (shards : Shards) (transit : Transit) {limit : Nat}
    (hlimit : limit ≤ Frame.defaultLimit) (usable : Backends → Line → Bool) (spoil : Line → Line)
    (lifetime : Nat) {history : History}
    (hcut : ∀ step ∈ history, ∃ buffer rest, Frame.cut limit buffer = (.ok (some step.1), rest))
    (hplain : ∀ step ∈ history, step.1.Plain) :
    (relayed (plane transit limit usable spoil) shards.owner history { lifetime := lifetime } {}).map
        .ok =
      Service.answered history {} := by
  have hrun {pool : Pool Address Line} {world : Backends} {single : Store}
      (h : Mirrors shards.owner limit single pool world) :
      (relayed (plane transit limit usable spoil) shards.owner history pool world).map .ok =
        Service.answered history single := by
    induction history generalizing pool world single with
    | nil => rfl
    | cons step history ih =>
      obtain ⟨request, now⟩ := step
      obtain ⟨buffer, rest, hpacket⟩ := hcut (request, now) List.mem_cons_self
      have hrequest := (Frame.cut_eq_packet_iff.mp hpacket).2
      have hnow : Mirrors shards.owner limit single pool { world with clock := now } :=
        ⟨h.stores, h.stocked, h.idle⟩
      obtain ⟨hreply, hafter⟩ :=
        hnow.route transit usable spoil hlimit hrequest (hplain (request, now) List.mem_cons_self) now rfl
      have hrest := ih (fun other hother => hcut other (List.mem_cons_of_mem _ hother))
        (fun other hother => hplain other (List.mem_cons_of_mem _ hother)) hafter
      simp only [relayed, Service.answered, List.map_cons, hrest]
      rw [← hreply]
  exact hrun (.new shards.owner limit lifetime)

def twoBackends : Shards where
  backends := [⟨.v4 127 0 0 1, 11211⟩, ⟨.v4 127 0 0 1, 11212⟩]
  nonempty := nofun

def twoKeys : History :=
  [(⟨{ magic := 0x80, opcode := 0x01, keyLength := 1, extrasLength := 8, totalBody := 10 },
      [0, 0, 0, 7, 0, 0, 0, 10, 107, 118]⟩, 5),
    (⟨{ magic := 0x80, opcode := 0x01, keyLength := 1, extrasLength := 8, totalBody := 10 },
      [0, 0, 0, 8, 0, 0, 0, 10, 108, 119]⟩, 6),
    (⟨{ magic := 0x80, keyLength := 1, totalBody := 1 }, [107]⟩, 8),
    (⟨{ magic := 0x80, keyLength := 1, totalBody := 1 }, [108]⟩, 9)]

/-- Two keys that different backends own. -/
theorem Backends.relayed_eq_answered_two_backends :
    twoBackends.owner [107] ≠ twoBackends.owner [108] ∧
      (relayed (plane .direct 100 (fun _ _ => true) id) twoBackends.owner twoKeys { lifetime := 60 }
        {}).map .ok = Service.answered twoKeys {} := by
  have hassembled : ∀ step ∈ twoKeys, step.1.Assembled 100 ∧ step.1.Plain := by
    intro step hstep
    simp only [twoKeys, List.mem_cons, List.not_mem_nil, or_false] at hstep
    rcases hstep with rfl | rfl | rfl | rfl
    all_goals
      refine ⟨⟨rfl, rfl, by decide⟩, ?_⟩
      rintro _ ⟨⟩
      exact ⟨rfl, nofun⟩
  have hcut : ∀ step ∈ twoKeys, ∃ buffer rest, Frame.cut 100 buffer = (.ok (some step.1), rest) :=
    fun step hstep => ⟨_, [], Frame.cut_eq_packet_iff.mpr ⟨rfl, (hassembled step hstep).1⟩⟩
  exact ⟨by decide +kernel, relayed_eq_answered twoBackends .direct (by decide) (fun _ _ => true) id 60
    hcut fun step hstep => (hassembled step hstep).2⟩

end ShardedCache
