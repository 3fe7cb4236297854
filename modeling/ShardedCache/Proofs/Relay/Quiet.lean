import ShardedCache.Proofs.Relay.Sharding

namespace ShardedCache

theorem Link.exchange_of_nothing (link : Link) (exchange : Exchange) (request : Octets)
    (hplan : link.plan = [exchange]) (hflush : exchange.flushError = none)
    (hwrites : ∀ event ∈ link.writes ++ exchange.writes, event.flows)
    (hnothing : Inlet.arriving (link.inlet ++ exchange.reads) = []) :
    ∃ error after, link.exchange request = (request, .error (.io error), after) := by
  obtain ⟨writes, hpush, -⟩ := WriteEvent.pushAll_of_flows .shortWrite request hwrites
  have hshort : (Inlet.arriving (link.inlet ++ exchange.reads)).length < Header.size := by
    rw [hnothing]
    decide
  obtain ⟨error, rest, hread⟩ := Inlet.readExact_of_lt hshort
  have hframe : (link.inlet ++ exchange.reads).readFrame Frame.defaultLimit =
      (.error (.io error), rest) := by
    simp only [Inlet.readFrame, hread]
  refine ⟨error, { link with plan := [], begun := link.begun + 1, writes := writes, inlet := rest }, ?_⟩
  simp only [Link.exchange, hplan, List.head?_cons, Option.getD_some, List.tail_cons, hpush, hflush,
    hframe]

/-- A request that a relay forwards, or settles as a server would answer it: no NOOP, and quiet only with a key. -/
def Packet.Relayable (p : Packet) : Prop :=
  ∀ op, p.header.command? = some op →
    op ≠ .noop ∧ (op.isQuiet = true → (op.isLookup || op.isPut) = true)

/-- What the client of a relay gets where a server replies so: silence is taken for a failure. -/
def Relay.heard (request : Packet) (reply : Reply) : Reply :=
  if reply = .silent then .status request.header .internalError else reply

theorem Relay.errand_ne_silent (request : Packet) : errand request ≠ .settled .silent := by
  rcases Service.kind_cases request with ⟨op, hcommand, hop⟩ | ⟨op, hcommand, hop⟩ | hother
  · rw [errand_of_keyed hcommand (by simp [hop])]
    cases request.key? <;> (intro h; cases h)
  · rw [errand_of_keyed hcommand (by simp [hop])]
    cases request.key? <;> (intro h; cases h)
  · cases hcommand : request.header.command? with
    | none =>
      simp only [errand, hcommand]
      intro h
      cases h
    | some op =>
      obtain ⟨hlookup, hput⟩ := hother op hcommand
      cases op <;> simp [Opcode.isLookup, Opcode.isPut] at hlookup hput <;>
        simp only [errand, hcommand] <;> (intro h; cases h)

namespace Service

variable {request : Packet} {op : Opcode} {key : Octets} {limit : Nat} {store : Store}

theorem keyed_shape (hcommand : request.header.command? = some op)
    (hop : (op.isLookup || op.isPut) = true) (hkey : request.key? = some key)
    (hstocked : store.Stocked limit) (now : Nat) :
    (answer request now store).1 = .ok .silent ∨
      ∃ p : Packet, (answer request now store).1 = .ok (.packet p) ∧
        (op = .setQ → Header.peekStatus? p.encode ≠ some 0) := by
  rcases Bool.or_eq_true_iff.mp hop with hop | hop
  · have hloud : op ≠ .setQ := by
      intro heq
      subst heq
      cases hop
    rw [answer_of_lookup hcommand hop, lookup_of_some hkey]
    cases hget : (store.get key now).1 with
    | some blob =>
      obtain ⟨item, rfl, -⟩ := hstocked.exists_item hget
      exact .inr ⟨_, by simp only [Item.unpack_pack]; rfl, fun h => absurd h hloud⟩
    | none =>
      by_cases hquiet : op.isQuiet = true
      · exact .inl (by simp only [hquiet, if_true])
      · exact .inr ⟨_, by simp only [hquiet, if_false, Bool.false_eq_true]; rfl, fun h => absurd h hloud⟩
  · rw [answer_of_put hcommand hop, put_eq]
    cases hdeposit : request.deposit? with
    | some d =>
      by_cases hquiet : op = .setQ
      · exact .inl (by simp only [hquiet, if_true])
      · exact .inr ⟨_, by simp only [hquiet, if_false]; rfl, fun h => absurd h hquiet⟩
    | none =>
      let refusal : Packet :=
        { header := { request.header.statusFor .invalidArguments with opcode := op.syncForm.byte } }
      refine .inr ⟨refusal, ?_, ?_⟩
      · simp only [Reply.invalidArguments, Reply.packet, Packet.encode, List.append_nil, refusal]
      · intro _
        rw [Packet.encode, Header.peekStatus?_encode_append]
        show some Status.invalidArguments.code ≠ some 0
        decide

theorem keyed_responds (hbound : limit < 4294967296) (hcommand : request.header.command? = some op)
    (hop : (op.isLookup || op.isPut) = true) (hkey : request.key? = some key)
    (hstocked : store.Stocked limit) (now : Nat) :
    (answer request now store).1 = .ok .silent ∨
      ∃ response, (answer request now store).1 = .ok (.send response.encode) ∧
        Responds request response ∧ response.body.length ≤ max limit 65539 ∧
        (op = .setQ → Header.peekStatus? response.encode ≠ some 0) := by
  obtain ⟨reply, response?, hreply, hanswers, hlength⟩ := answer_fits hbound hstocked request now
  rcases keyed_shape hcommand hop hkey hstocked now with hsilent | ⟨p, hpacket, hstatus⟩
  · exact .inl hsilent
  · obtain rfl := Except.ok.inj (hreply.symm.trans hpacket)
    have hoctets : p.encode = (response?.map Packet.encode).getD [] := hanswers.octets
    have hsize : 0 < p.encode.length := by
      rw [Packet.length_encode, Packet.encodedLength]
      exact Nat.add_pos_left (by decide) _
    cases response? with
    | none =>
      rw [hoctets] at hsize
      cases hsize
    | some response =>
      have hsame : p.encode = response.encode := hoctets
      rw [hsame] at hstatus
      refine .inr ⟨response, ?_, hanswers.responds response rfl, hlength response rfl, hstatus⟩
      rw [hpacket, Reply.packet, hsame]

theorem keyed_cases (hlimit : limit ≤ Frame.defaultLimit) (hcommand : request.header.command? = some op)
    (hop : (op.isLookup || op.isPut) = true) (hkey : request.key? = some key)
    (hstocked : store.Stocked limit) (now : Nat) :
    (answer request now store).1 = .ok .silent ∨
      ∃ response, (answer request now store).1 = .ok (.send response.encode) ∧
        Responds request response ∧ response.body.length ≤ Frame.defaultLimit ∧
        (op = .setQ → Header.peekStatus? response.encode ≠ some 0) := by
  have hdefault : Frame.defaultLimit = 16777216 := rfl
  rcases keyed_responds (by omega) hcommand hop hkey hstocked now with
    hsilent | ⟨response, hreply, hresponds, hlength, hstatus⟩
  · exact .inl hsilent
  · exact .inr ⟨response, hreply, hresponds, by omega, hstatus⟩

end Service

def Line.spoil (line : Line) : Line :=
  { line with link := { line.link with spoiled := true } }

namespace Backends

variable {transit : Transit} {limit : Nat} {world : Backends} {address : Address} {line : Line}

def usable (_ : Backends) (line : Line) : Bool :=
  !line.link.spoiled

/-- Sends a request to the session at the far end and takes what it then writes for the answer.  If it writes nothing,
waiting for the answer ends in `expiry`. -/
def await (transit : Transit) (limit : Nat) (expiry : IoError) (request : Octets) (line : Line)
    (world : Backends) : Except Fault Octets × Line × Backends :=
  let room := transit.writes world.traffic
  let (accepted, _) := WriteEvent.pushAll .shortWrite (line.link.writes ++ room) request
  let (written, progress, store) := serve transit limit accepted line world
  if written = [] then
    let exchange : Exchange := { reads := [.fail expiry], writes := room }
    let (_, answer, link) := (line.facing exchange).exchange request
    (answer, { link, progress }, world.put line.link.peer store)
  else converse transit limit request line world

/-- The backends as a relay reaches them that waits for each answer until its patience ends. -/
def patientPlane (transit : Transit) (limit : Nat) (expiry : IoError) (usable : Backends → Line → Bool)
    (spoil : Line → Line) : Backplane Line Backends :=
  { plane transit limit usable spoil with converse := await transit limit expiry }

theorem await_of_send (transit : Transit) (expiry : IoError) (hline : line.Ready address)
    {request response : Packet} (hrequest : request.Assembled limit)
    (hreply : (Service.answer request world.clock (world.stores address)).1 =
      .ok (.send response.encode))
    (hresponds : Responds request response) (hfits : response.body.length ≤ Frame.defaultLimit) :
    ∃ after,
      await transit limit expiry request.encode line world =
          (.ok response.encode, after,
            world.put address (Service.answer request world.clock (world.stores address)).2) ∧
        after.Ready address := by
  have hconverse := converse_of_send transit hline hrequest hreply hresponds hfits
  obtain rfl := hline.peer
  obtain ⟨left, hpush, -⟩ := WriteEvent.pushAll_of_flows .shortWrite request.encode
    (writes_flow transit hline world.traffic)
  obtain ⟨sink, hprogress, hopen⟩ := hline.resting
  obtain ⟨sent, hserve, -⟩ :=
    serve_ready transit hprogress hopen hrequest (Prod.ext hreply rfl) rfl
  have hsize : 0 < response.encode.length := by
    rw [Packet.length_encode, Packet.encodedLength]
    exact Nat.add_pos_left (by decide) _
  have hwritten : (Reply.send response.encode).octets ≠ [] := List.ne_nil_of_length_pos hsize
  simp only [await, hpush, hserve, if_neg hwritten]
  exact hconverse

/-- Where the store at the far end keeps silent, the exchange fails, although the request has been answered. -/
theorem await_of_silent (transit : Transit) (expiry : IoError) (hline : line.Ready address)
    {request : Packet} (hrequest : request.Assembled limit)
    (hreply : (Service.answer request world.clock (world.stores address)).1 = .ok .silent) :
    ∃ fault after,
      await transit limit expiry request.encode line world =
        (.error fault, after,
          world.put address (Service.answer request world.clock (world.stores address)).2) := by
  obtain rfl := hline.peer
  have hwrites := writes_flow transit hline world.traffic
  obtain ⟨left, hpush, -⟩ := WriteEvent.pushAll_of_flows .shortWrite request.encode hwrites
  obtain ⟨sink, hprogress, hopen⟩ := hline.resting
  obtain ⟨sent, hserve, -⟩ :=
    serve_ready transit hprogress hopen hrequest (Prod.ext hreply rfl) rfl
  have hwritten : Reply.silent.octets = [] := rfl
  let exchange : Exchange := { reads := [.fail expiry], writes := transit.writes world.traffic }
  have hnothing : Inlet.arriving ((line.facing exchange).inlet ++ exchange.reads) = [] := by
    have hexpiry : Inlet.arriving [.fail expiry] = [] := by
      simp only [Inlet.arriving, ite_self]
    have hprefix := Inlet.arriving_append_isPrefix line.link.inlet [.fail expiry]
    rw [hline.drained, hexpiry] at hprefix
    exact List.prefix_nil.mp hprefix
  obtain ⟨error, link, hexchange⟩ :=
    Link.exchange_of_nothing (line.facing exchange) exchange request.encode rfl rfl hwrites hnothing
  refine ⟨.io error, { link, progress := .reading { outbox := { sink := sent } } }, ?_⟩
  simp only [await, hpush, hserve, hwritten, if_true]
  rw [hexchange]

end Backends

namespace Mirrors

variable {owner : Octets → Address} {limit : Nat} {single : Store} {pool : Pool Address Line}
  {world : Backends} (transit : Transit) (expiry : IoError) {usable : Backends → Line → Bool}
  {spoil : Line → Line} {request : Packet}

/-- Where the single store keeps silent, the relay tells of a failure.  It goes on to mirror the store, and keeps no
connection that it did not have before. -/
theorem route_silent (h : Mirrors owner limit single pool world)
    (hspoil : ∀ world line, usable world (spoil line) = false) (hrequest : request.Assembled limit)
    {op : Opcode} {key : Octets} (herrand : Relay.errand request = .forward op key)
    (hsilent : (Service.answer request world.clock single).1 = .ok .silent) (now : Nat)
    {routed : Relay.Routed Line Backends}
    (hrouted : Relay.route (Backends.patientPlane transit limit expiry usable spoil) owner now request
      pool world = routed) :
    routed.reply = .status request.header .internalError ∧
      Mirrors owner limit (Service.answer request world.clock single).2 routed.pool routed.world ∧
      ∀ address, (routed.pool.queue address).Sublist (pool.queue address) := by
  obtain ⟨-, -, hkey⟩ := Relay.errand_eq_forward_iff.mp herrand
  have hbody : request.body.length ≤ limit := by
    rw [← hrequest.total]
    exact hrequest.le_limit
  have hkept :=
    Pool.queue_borrow_sublist (usable world) (Backends.dial transit limit (owner key)) (owner key) pool
      world
  obtain ⟨loan, borrowed, line, hborrow, hanswer, hready, hborrowed, hclock⟩ :=
    h.borrow transit (usable world) (owner key)
  rw [hborrow] at hkept
  rw [← hclock] at hsilent
  obtain ⟨hsame, hput⟩ := hborrowed.put hkey hbody
  obtain ⟨fault, after, hawait⟩ :=
    Backends.await_of_silent transit expiry hready hrequest (hsame.trans hsilent)
  have hforward := Relay.forward_of_fault (Backends.patientPlane transit limit expiry usable spoil) op
    now hborrow hanswer hawait
  have hgone (world : Backends) :
      (loan.pool.giveBack (usable world) now (owner key) (spoil after)).pool = loan.pool :=
    Pool.giveBack_of_not_valid (hspoil world after) now (owner key) loan.pool
  rw [Relay.route, herrand] at hrouted
  simp only at hrouted
  rw [hforward] at hrouted
  subst hrouted
  rw [← hclock]
  refine ⟨rfl, ?_, ?_⟩
  · show Mirrors owner limit _ (loan.pool.giveBack (usable _) now (owner key) (spoil after)).pool _
    rw [hgone]
    exact hput
  · intro address
    show ((loan.pool.giveBack (usable _) now (owner key) (spoil after)).pool.queue address).Sublist _
    rw [hgone]
    exact hkept address

/-- The relay replies what the single store answers, but for its silences, and goes on to mirror it. -/
theorem route_patient (h : Mirrors owner limit single pool world) (hlimit : limit ≤ Frame.defaultLimit)
    (hspoil : ∀ world line, usable world (spoil line) = false) (hrequest : request.Assembled limit)
    (hrelayable : request.Relayable) (now : Nat) {routed : Relay.Routed Line Backends}
    (hrouted : Relay.route (Backends.patientPlane transit limit expiry usable spoil) owner now request
      pool world = routed) :
    ∃ reply, (Service.answer request world.clock single).1 = .ok reply ∧
      routed.reply = Relay.heard request reply ∧
      Mirrors owner limit (Service.answer request world.clock single).2 routed.pool routed.world := by
  match herrand : Relay.errand request with
  | .settled reply =>
    have hspoken : reply ≠ .silent := by
      intro heq
      subst heq
      exact Relay.errand_ne_silent request herrand
    have hsettled : Service.answer request world.clock single = (.ok reply, single) := by
      rcases Service.kind_cases request with ⟨op, hcommand, hop⟩ | ⟨op, hcommand, hop⟩ | hother
      · exact Relay.answer_of_settled_keyed hcommand (by simp [hop]) herrand _ _
      · exact Relay.answer_of_settled_keyed hcommand (by simp [hop]) herrand _ _
      · apply Relay.answer_of_settled _ herrand
        intro op hcommand
        obtain ⟨hnoop, hkeyed⟩ := hrelayable op hcommand
        obtain ⟨hlookup, hput⟩ := hother op hcommand
        refine ⟨?_, hnoop⟩
        cases hquiet : op.isQuiet with
        | false => rfl
        | true =>
          have hboth := hkeyed hquiet
          rw [hlookup, hput] at hboth
          cases hboth
    rw [Relay.route, herrand] at hrouted
    subst hrouted
    rw [hsettled]
    exact ⟨reply, rfl, (if_neg hspoken).symm, h⟩
  | .forward op key =>
    obtain ⟨hcommand, hop, hkey⟩ := Relay.errand_eq_forward_iff.mp herrand
    have hbody : request.body.length ≤ limit := by
      rw [← hrequest.total]
      exact hrequest.le_limit
    obtain ⟨loan, borrowed, line, hborrow, hanswer, hready, hborrowed, hclock⟩ :=
      h.borrow transit (usable world) (owner key)
    obtain ⟨hsame, hput⟩ := hborrowed.put hkey hbody
    rcases Service.keyed_cases hlimit hcommand hop hkey (hborrowed.stocked (owner key)) borrowed.clock with
      hsilent | ⟨response, hreply, hresponds, hfits, hstatus⟩
    · rw [hsame, hclock] at hsilent
      obtain ⟨hfailed, hafter, -⟩ := h.route_silent transit expiry hspoil hrequest herrand hsilent now hrouted
      exact ⟨.silent, hsilent, hfailed, hafter⟩
    · obtain ⟨after, hawait, hback⟩ :=
        Backends.await_of_send transit expiry hready hrequest hreply hresponds hfits
      have hforward := Relay.forward_of_frame (Backends.patientPlane transit limit expiry usable spoil) op
        now hborrow hanswer hawait
      rw [Relay.route, herrand] at hrouted
      simp only at hrouted
      rw [hforward, Relay.conclude_of_keyed hop, if_neg fun hquiet => hstatus hquiet.1 hquiet.2] at hrouted
      subst hrouted
      rw [← hclock]
      exact ⟨.send response.encode, hsame.symm.trans hreply, rfl, hput.giveBack hback _ now⟩

end Mirrors

namespace Backends

/-- Over shards a relay replies to requests what one server with one store answers, however quiet they are, but where
that server keeps silent the client is told of an internal error. -/
theorem relayed_of_patient (shards : Shards) (transit : Transit) {limit : Nat}
    (hlimit : limit ≤ Frame.defaultLimit) (expiry : IoError) {usable : Backends → Line → Bool}
    {spoil : Line → Line} (hspoil : ∀ world line, usable world (spoil line) = false) (lifetime : Nat)
    {history : History} (hassembled : ∀ step ∈ history, step.1.Assembled limit)
    (hrelayable : ∀ step ∈ history, step.1.Relayable) :
    (relayed (patientPlane transit limit expiry usable spoil) shards.owner history
        { lifetime := lifetime } {}).map .ok =
      List.zipWith (fun step answer => answer.map (Relay.heard step.1)) history
        (Service.answered history {}) := by
  have hrun {pool : Pool Address Line} {world : Backends} {single : Store}
      (h : Mirrors shards.owner limit single pool world) :
      (relayed (patientPlane transit limit expiry usable spoil) shards.owner history pool world).map .ok =
        List.zipWith (fun step answer => answer.map (Relay.heard step.1)) history
          (Service.answered history single) := by
    induction history generalizing pool world single with
    | nil => rfl
    | cons step history ih =>
      obtain ⟨request, now⟩ := step
      have hnow : Mirrors shards.owner limit single pool { world with clock := now } :=
        ⟨h.stores, h.stocked, h.idle⟩
      obtain ⟨reply, hanswer, hreply, hafter⟩ :=
        hnow.route_patient transit expiry hlimit hspoil (hassembled (request, now) List.mem_cons_self)
          (hrelayable (request, now) List.mem_cons_self) now rfl
      have hrest := ih (fun other hother => hassembled other (List.mem_cons_of_mem _ hother))
        (fun other hother => hrelayable other (List.mem_cons_of_mem _ hother)) hafter
      simp only [relayed, Service.answered, List.map_cons, List.zipWith_cons_cons, hrest, hreply]
      rw [hanswer]
      rfl
  exact hrun (.new shards.owner limit lifetime)

/-- A quiet request to store, a quiet lookup of another key and a lookup of the first one, over two backends. -/
theorem relayed_of_patient_two_backends :
    (∀ (world : Backends) (line : Line), usable world line.spoil = false) ∧
      (relayed (patientPlane .direct 100 ⟨.wouldBlock, "timed out"⟩ usable Line.spoil)
          (Shards.owner ⟨[⟨.v4 127 0 0 1, 11211⟩, ⟨.v4 127 0 0 1, 11212⟩], nofun⟩)
          [(⟨{ magic := 0x80, opcode := 0x11, keyLength := 1, extrasLength := 8, totalBody := 10 },
              [0, 0, 0, 7, 0, 0, 0, 10, 107, 118]⟩, 5),
            (⟨{ magic := 0x80, opcode := 0x09, keyLength := 1, totalBody := 1 }, [108]⟩, 6),
            (⟨{ magic := 0x80, keyLength := 1, totalBody := 1 }, [107]⟩, 9)]
          { lifetime := 60 } {}).map .ok =
        List.zipWith (fun step answer => answer.map (Relay.heard step.1))
          [(⟨{ magic := 0x80, opcode := 0x11, keyLength := 1, extrasLength := 8, totalBody := 10 },
              [0, 0, 0, 7, 0, 0, 0, 10, 107, 118]⟩, 5),
            (⟨{ magic := 0x80, opcode := 0x09, keyLength := 1, totalBody := 1 }, [108]⟩, 6),
            (⟨{ magic := 0x80, keyLength := 1, totalBody := 1 }, [107]⟩, 9)]
          (Service.answered
            [(⟨{ magic := 0x80, opcode := 0x11, keyLength := 1, extrasLength := 8, totalBody := 10 },
                [0, 0, 0, 7, 0, 0, 0, 10, 107, 118]⟩, 5),
              (⟨{ magic := 0x80, opcode := 0x09, keyLength := 1, totalBody := 1 }, [108]⟩, 6),
              (⟨{ magic := 0x80, keyLength := 1, totalBody := 1 }, [107]⟩, 9)] {}) := by
  have hspoil : ∀ (world : Backends) (line : Line), usable world line.spoil = false := fun _ _ => rfl
  refine ⟨hspoil, relayed_of_patient _ .direct (by decide) _ hspoil 60 ?_ ?_⟩
  · intro step hstep
    simp only [List.mem_cons, List.not_mem_nil, or_false] at hstep
    rcases hstep with rfl | rfl | rfl <;> exact ⟨rfl, rfl, by decide⟩
  · intro step hstep
    simp only [List.mem_cons, List.not_mem_nil, or_false] at hstep
    rcases hstep with rfl | rfl | rfl <;> rintro _ ⟨⟩ <;> decide

/-- A quiet lookup that misses and a quiet request to store that succeeds: a server keeps silent at both, the relay
tells of a failure at both and keeps no connection, and what was to be stored is stored. -/
theorem silence_told_as_failure :
    let owner : Octets → Address := fun _ => ⟨.v4 127 0 0 1, 11211⟩
    let plane := patientPlane .direct 100 ⟨.wouldBlock, "timed out"⟩ usable Line.spoil
    let miss : Packet := ⟨{ magic := 0x80, opcode := 0x09, keyLength := 1, totalBody := 1 }, [107]⟩
    let change : Packet :=
      ⟨{ magic := 0x80, opcode := 0x11, keyLength := 1, extrasLength := 8, totalBody := 10 },
        [0, 0, 0, 7, 0, 0, 0, 10, 107, 118]⟩
    (Service.answer miss 0 {}).1 = .ok .silent ∧
      (Relay.route plane owner 0 miss { lifetime := 60 } {}).reply =
        .status miss.header .internalError ∧
      (∀ address, (Relay.route plane owner 0 miss { lifetime := 60 } {}).pool.queue address = []) ∧
      (Service.answer change 0 {}).1 = .ok .silent ∧
      (Relay.route plane owner 0 change { lifetime := 60 } {}).reply =
        .status change.header .internalError ∧
      ((Relay.route plane owner 0 change { lifetime := 60 } {}).world.stores (owner [107])).find? [107] =
        (Service.answer change 0 {}).2.find? [107] := by
  intro owner plane miss change
  have hspoil : ∀ (world : Backends) (line : Line), usable world line.spoil = false := fun _ _ => rfl
  have hempty := Mirrors.new owner 100 60
  have hmissed : Relay.errand miss = .forward .getQ [107] := rfl
  have hchanged : Relay.errand change = .forward .setQ [107] := rfl
  have hmiss := hempty.route_silent .direct ⟨.wouldBlock, "timed out"⟩ hspoil ⟨rfl, rfl, by decide⟩
    hmissed rfl 0 rfl
  have hchange := hempty.route_silent .direct ⟨.wouldBlock, "timed out"⟩ hspoil ⟨rfl, rfl, by decide⟩
    hchanged rfl 0 rfl
  refine ⟨rfl, hmiss.1, ?_, rfl, hchange.1, hchange.2.1.stores [107]⟩
  intro address
  exact List.sublist_nil.mp (hmiss.2.2 address)

end Backends

end ShardedCache
