import ShardedCache.Proofs.Session.Account
import ShardedCache.Proofs.Session.Conversation
import ShardedCache.Proofs.Session.Outflow
import ShardedCache.Proofs.Session.Transcript

/-! At every read a session has handled each request that arrived, and each octet of the replies is out
(`Session.Stands`).  After a failed write what went out is still a front of the replies. -/

namespace ShardedCache

/-- A handler that fails only for reasons of its own, and not of a stream. -/
def Handler.Inward {σ : Type} (handler : Handler σ) : Prop :=
  ∀ request state error, (handler request state).1 ≠ .error (.io error)

theorem Service.handler_inward (clock : Nat → Nat) : (handler clock).Inward := by
  intro request state error h
  have hfamily := family_of_answer h
  cases hfamily

namespace Served

variable {σ : Type} {limit : Nat} {handler : Handler σ} {stream : Octets} {state last : σ}
  {said : Transcript} {halt : Halt}

theorem result_ne_io (h : Served limit handler stream state said halt last) (hinward : handler.Inward)
    (error : IoError) : halt.result ≠ .error (.io error) := by
  induction h with
  | exhausted hstop => cases hstop <;> nofun
  | @failed request rest state after fault _ hreply =>
    intro hfault
    obtain rfl := Except.error.inj hfault
    apply hinward request state error
    rw [hreply]
  | closed _ _ _ => nofun
  | answered _ _ _ _ ih => exact ih

end Served

theorem Outbox.Moved.said {β γ : Type} {box between after : Outbox} {said more : Transcript} {value : β}
    {next : Except IoError γ} (h : box.Moved said.octets (.ok value : Except IoError β) between)
    (h' : between.Moved more.octets next after) :
    box.Moved (Transcript.octets (said ++ more)) next after := by
  rw [Transcript.octets_append]
  exact h.trans h'

namespace Session

variable {σ : Type} {limit : Nat} {handler : Handler σ} {stream : Octets} {state last : σ}
  {box after : Outbox} {said : Transcript} {ending : Frame.Ending} {outcome : Except Fault Bool}

/-- How requests that stand in front of a stream were handled in a row, before an outbox. -/
inductive Handled (limit : Nat) (handler : Handler σ) (stream : Octets) (ending : Frame.Ending)
    (state : σ) (box : Outbox) : Transcript → Except Fault Bool → σ → Outbox → Prop
  | through {said : Transcript} {last : σ} {after : Outbox} :
    Served limit handler stream state said (.exhausted ending) last →
      box.Moved said.octets (.ok () : Except IoError Unit) after →
      Handled limit handler stream ending state box said (.ok true) last after
  | closed {said : Transcript} {last : σ} {after : Outbox} :
    Served limit handler stream state said .closed last →
      box.Moved said.octets (.ok () : Except IoError Unit) after → after.queued = [] →
      Handled limit handler stream ending state box said (.ok false) last after
  | failed {said : Transcript} {last : σ} {after : Outbox} {fault : Fault} :
    Served limit handler stream state said (.failed fault) last →
      box.Moved said.octets (.ok () : Except IoError Unit) after →
      Handled limit handler stream ending state box said (.error fault) last after
  | broken {said : Transcript} {last : σ} {after : Outbox} {error : IoError} :
    box.Moved said.octets (.error error : Except IoError Unit) after →
      Handled limit handler stream ending state box said (.error (.io error)) last after

theorem Handled.cons {request : Packet} {reply : Reply} {next : σ} {between : Outbox}
    (hrequest : request.Assembled limit) (hreply : handler request state = (.ok reply, next))
    (hopen : reply.closes = false) (hmoved : box.Moved reply.octets (.ok true) between)
    (h : Handled limit handler stream ending next between said outcome last after) :
    Handled limit handler (request.encode ++ stream) ending state box ((request, .ok reply) :: said)
      outcome last after := by
  cases h with
  | through hserved hrest =>
    exact .through (.answered hrequest hreply hopen hserved) (hmoved.trans hrest)
  | closed hserved hrest hempty =>
    exact .closed (.answered hrequest hreply hopen hserved) (hmoved.trans hrest) hempty
  | failed hserved hrest =>
    exact .failed (.answered hrequest hreply hopen hserved) (hmoved.trans hrest)
  | broken hrest => exact .broken (hmoved.trans hrest)

theorem handleAll_noting (handler : Handler σ) {requests : List Packet} {rest : Octets}
    (hrequests : ∀ p ∈ requests, p.Assembled limit) (hstop : Frame.Stops limit rest ending) (state : σ)
    (before : Transcript) (box : Outbox) :
    ∃ said outcome last after,
      handleAll handler.noting requests (state, before) box = (outcome, (last, before ++ said), after) ∧
        Handled limit handler (requests.flatMap Packet.encode ++ rest) ending state box said outcome last
          after := by
  have hstill (box : Outbox) : box.Moved [] (.ok () : Except IoError Unit) box := by
    apply Outbox.Moved.of_eq (.refl _) (List.append_nil _).symm
    intro error herror
    cases herror
  -- Each request moves the handler's state, the transcript and the box on, so that all three are general.
  induction requests generalizing state before box with
  | nil =>
    refine ⟨[], .ok true, state, box, by rw [handleAll, List.append_nil], ?_⟩
    exact .through (.exhausted hstop) (hstill box)
  | cons request requests ih =>
    have hrequest := hrequests request List.mem_cons_self
    rw [List.flatMap_cons, List.append_assoc]
    rcases hreply : handler request state with ⟨fault | reply, next⟩
    · refine ⟨[(request, .error fault)], .error fault, next, box, ?_, ?_⟩
      · simp only [handleAll, Handler.noting, hreply]
      · exact .failed (.failed hrequest hreply) (hstill box)
    · obtain ⟨hmoved, hgoes⟩ := moved_perform reply box
      have hone : Transcript.octets [(request, .ok reply)] = reply.octets := List.append_nil _
      rcases hperform : perform reply box with ⟨error | goesOn, between⟩
      · rw [hperform] at hmoved
        refine ⟨[(request, .ok reply)], .error (.io error), next, between, ?_, ?_⟩
        · simp only [handleAll, Handler.noting, hreply, hperform]
        · apply Handled.broken
          rw [hone]
          exact hmoved.map fun _ => ()
      cases goesOn with
      | false =>
        rw [hperform] at hmoved hgoes
        obtain ⟨hcloses, hempty⟩ := hgoes false rfl
        have hcloses : reply.closes = true := by simpa using hcloses.symm
        refine ⟨[(request, .ok reply)], .ok false, next, between, ?_, ?_⟩
        · simp only [handleAll, Handler.noting, hreply, hperform]
        · apply Handled.closed (.closed hrequest hreply hcloses) _ (hempty hcloses)
          rw [hone]
          exact hmoved.map fun _ => ()
      | true =>
        rw [hperform] at hmoved hgoes
        have hopen : reply.closes = false := by simpa using (hgoes true rfl).1.symm
        obtain ⟨said, outcome, last, after, hhandle, hhandled⟩ :=
          ih (fun p hp => hrequests p (List.mem_cons_of_mem request hp)) next
            (before ++ [(request, .ok reply)]) between
        refine ⟨(request, .ok reply) :: said, outcome, last, after, ?_, ?_⟩
        · simp only [handleAll, Handler.noting, hreply, hperform]
          rw [List.append_assoc, List.singleton_append] at hhandle
          exact hhandle
        · exact hhandled.cons hrequest hreply hopen hmoved

/-- Where a session stands that began before `base` once the octets of `arrived` are there. -/
inductive Stands (limit : Nat) (handler : Handler σ) (first : σ) (base : Outbox) (arrived : Octets) :
    Progress → σ × Transcript → Prop
  /-- It is about to read.  All that arrived and is a request has been handled, and nothing waits to go out. -/
  | reading {session : Session} {state : σ} {said : Transcript} :
    Served limit handler arrived first said (.exhausted (.incomplete session.buffer)) state →
      base.Moved said.octets (.ok () : Except IoError Unit) session.outbox →
      session.outbox.queued = [] →
      Stands limit handler first base arrived (.reading session) (state, said)
  | ended {session : Session} {state : σ} {said : Transcript} {halt : Halt} :
    Served limit handler arrived first said halt state →
      (∀ rest, halt ≠ .exhausted (.incomplete rest)) →
      base.Moved said.octets (.ok () : Except IoError Unit) session.outbox →
      (halt.result = .ok () → session.outbox.queued = []) →
      Stands limit handler first base arrived (.ended halt.result session) (state, said)
  | broken {session : Session} {state : σ} {said : Transcript} {error : IoError} :
    base.Moved said.octets (.error error : Except IoError Unit) session.outbox →
      Stands limit handler first base arrived (.ended (.error (.io error)) session) (state, said)

section Standing

variable {first : σ} {base : Outbox} {arrived rest more : Octets} {session : Session}

theorem digest_stands
    (hserved : Served limit handler arrived first said (.exhausted (.incomplete rest)) state)
    (hbuffer : session.buffer = rest ++ more)
    (hmoved : base.Moved said.octets (.ok () : Except IoError Unit) session.outbox) :
    Stands limit handler first base (arrived ++ more)
      (digest limit handler.noting (state, said) session).1
      (digest limit handler.noting (state, said) session).2 := by
  obtain ⟨tail, hsplit, hstop⟩ := Frame.exists_of_cutAll limit session.buffer
  have hrequests : ∀ p ∈ (Frame.cutAll limit session.buffer).1, p.Assembled limit :=
    fun p hp => Frame.assembled_of_mem_cutAll hp
  obtain ⟨new, outcome, last, after, hhandle, hhandled⟩ :=
    handleAll_noting handler hrequests hstop state said session.outbox
  rw [← hsplit, hbuffer] at hhandled
  simp only [digest, hhandle]
  cases hhandled with
  | failed hnew hall =>
    refine .ended (hserved.append hnew) ?_ (hmoved.said hall) ?_
    · intro rest h
      cases h
    · intro h
      cases h
  | broken hall => exact .broken (hmoved.said hall)
  | closed hnew hall hempty =>
    refine .ended (hserved.append hnew) ?_ (hmoved.said hall) fun _ => hempty
    intro rest h
    cases h
  | through hnew hall =>
    have hboth := hserved.append hnew
    rw [← hbuffer] at hboth
    cases hending : (Frame.cutAll limit session.buffer).2 with
    | violated fault =>
      rw [hending] at hboth
      refine .ended hboth ?_ (hmoved.said hall) ?_
      · intro rest h
        cases h
      · intro h
        cases h
    | incomplete left =>
      rw [hending] at hboth
      obtain ⟨hflushed, hempty⟩ := after.moved_flush
      rcases hflush : after.flush with ⟨error | _, box⟩
      · rw [hflush] at hflushed
        exact .broken ((hmoved.said hall).trans_nil hflushed)
      · rw [hflush] at hflushed hempty
        exact .reading hboth ((hmoved.said hall).trans_nil hflushed) (hempty rfl)

theorem advance_stands {event : ReadEvent} {progress : Progress} {noted : σ × Transcript}
    (h : Stands limit handler first base arrived progress noted) (hevent : event.flows) :
    Stands limit handler first base (arrived ++ Inlet.arriving [event])
      (advance limit handler.noting (progress, noted) event).1
      (advance limit handler.noting (progress, noted) event).2 := by
  cases h with
  | reading hserved hmoved hempty =>
    match event with
    | .data [] => simp [ReadEvent.flows] at hevent
    | .data (b :: bs) =>
      have harrive : Inlet.arriving [.data (b :: bs)] = b :: bs := by simp [Inlet.arriving]
      rw [harrive]
      exact digest_stands hserved rfl hmoved
    | .fail error =>
      have hkind : error.kind = .interrupted := by simpa [ReadEvent.flows] using hevent
      have harrive : Inlet.arriving [.fail error] = [] := by simp [Inlet.arriving]
      rw [harrive, advance, receive, if_pos hkind]
      exact digest_stands hserved (List.append_nil _).symm hmoved
  | ended hserved hover hmoved hempty =>
    exact .ended (hserved.append_of_over hover _) hover hmoved hempty
  | broken hmoved => exact .broken hmoved

/-- Where a session stands after these reads: where it stood when what arrives had been read.  If a read failed then,
or met the end of the stream, the session was given up where it stood. -/
theorem foldl_advance_stands {progress : Progress} {noted : σ × Transcript} (inlet : Inlet)
    (h : Stands limit handler first base arrived progress noted) :
    ∃ before last, Stands limit handler first base (arrived ++ Inlet.arriving inlet) before last ∧
      (inlet.foldl (advance limit handler.noting) (progress, noted) = (before, last) ∨
        ∃ session result, before = .reading session ∧ (∃ event ∈ inlet, event.flows = false) ∧
          inlet.foldl (advance limit handler.noting) (progress, noted) =
            (.ended result session, last)) := by
  induction inlet generalizing arrived progress noted with
  | nil => exact ⟨progress, noted, by rw [Inlet.arriving, List.append_nil]; exact h, .inl rfl⟩
  | cons event inlet ih =>
    by_cases hevent : event.flows = true
    · have harrive : Inlet.arriving (event :: inlet) =
          Inlet.arriving [event] ++ Inlet.arriving inlet :=
        Inlet.arriving_append_of_flows [event] inlet (by simpa using hevent)
      rw [harrive, ← List.append_assoc]
      obtain ⟨before, last, hstands, hend⟩ := ih (advance_stands h hevent)
      refine ⟨before, last, hstands, ?_⟩
      rcases hend with hend | ⟨session, result, hbefore, ⟨other, hother, hfails⟩, hend⟩
      · exact .inl hend
      · exact .inr ⟨session, result, hbefore, ⟨other, List.mem_cons_of_mem event hother, hfails⟩, hend⟩
    · have hfails : event.flows = false := by simpa using hevent
      refine ⟨progress, noted, ?_, ?_⟩
      · rw [Inlet.arriving_cons_of_not_flows inlet hevent, List.append_nil]
        exact h
      cases progress with
      | ended result session => exact .inl (foldl_advance_ended inlet result session noted)
      | reading session =>
        obtain ⟨result, hadvance, -⟩ := advance_of_not_flows limit handler.noting hfails session noted
        refine .inr ⟨session, result, rfl, ⟨event, List.mem_cons_self, hfails⟩, ?_⟩
        rw [List.foldl_cons, hadvance]
        exact foldl_advance_ended inlet result session noted

theorem start_stands (limit : Nat) (handler : Handler σ) (sink : Sink) (first : σ) :
    Stands limit handler first { sink := sink } [] (start limit handler.noting sink (first, [])).1
      (start limit handler.noting sink (first, [])).2 :=
  digest_stands (.exhausted (.nil limit)) rfl
    (.of_eq (.refl _) (List.append_nil _).symm nofun)

end Standing

theorem settle_of_ne_io {result : Except Fault Unit} (h : ∀ error, result ≠ .error (.io error))
    (session : Session) : (settle result session).1 = result := by
  match result with
  | .ok () => rfl
  | .error (.io error) => exact absurd rfl (h error)
  | .error (.framing _) | .error (.value _) | .error (.backend _) | .error (.settings _) => rfl

/-- Reporting a result passes on what waits, unless the client went away.  All of it goes out if the sink does not
fail. -/
theorem settle_moved (result : Except Fault Unit) (session : Session) :
    session.outbox.sink.Later (settle result session).2.outbox.sink ∧
      (settle result session).2.outbox.wire <+: session.outbox.wire ∧
      ((session.outbox.queued = [] ∨ result ≠ .ok () ∧ ∀ error, result ≠ .error (.io error)) →
        ¬ session.outbox.sink.Failed (settle result session).2.outbox.sink →
          (settle result session).2.outbox.sink.sent = session.outbox.wire) := by
  match result with
  | .ok () =>
    refine ⟨.refl _, List.prefix_rfl, ?_⟩
    intro hout _
    rcases hout with hempty | ⟨hfault, -⟩
    · exact Outbox.sent_eq_wire _ hempty
    · exact absurd rfl hfault
  | .error fault =>
    rw [settle]
    by_cases hquiet : (fault.isHangup || fault.isTimeout) = true
    · rw [if_pos hquiet]
      refine ⟨.refl _, List.prefix_rfl, ?_⟩
      intro hout _
      rcases hout with hempty | ⟨-, hinward⟩
      · exact Outbox.sent_eq_wire _ hempty
      · cases fault with
        | io error => exact absurd rfl (hinward error)
        | _ => cases hquiet
    · rw [if_neg hquiet]
      obtain ⟨hmoved, hempty⟩ := session.outbox.moved_flush
      have hfront := hmoved.front
      rw [List.append_nil] at hfront
      refine ⟨hmoved.later, hfront, ?_⟩
      intro _ hsink
      cases hflush : session.outbox.flush.1 with
      | error error => exact absurd (hmoved.failed error hflush) hsink
      | ok value =>
        have hwhole := hmoved.whole value hflush
        rw [List.append_nil] at hwhole
        exact (Outbox.sent_eq_wire _ (hempty hflush)).trans hwhole

/-- What a session comes to: all that its stream asks for, with nothing waiting or a failure to report, or a failure
of its outbox. -/
theorem serve_cases (limit : Nat) (handler : Handler σ) (inlet : Inlet) (sink : Sink) (first : σ) :
    ∃ result session last said,
      serve limit handler.noting inlet sink (first, []) = (result, session, last, said) ∧
        ((∃ halt, Served limit handler (Inlet.arriving inlet) first said halt last ∧
            ({ sink := sink } : Outbox).Moved said.octets (.ok () : Except IoError Unit) session.outbox ∧
            (session.outbox.queued = [] ∨ result ≠ .ok () ∧ result = halt.result) ∧
            ((∀ event ∈ inlet, event.flows) → result = halt.result)) ∨
          ∃ error, ({ sink := sink } : Outbox).Moved said.octets (.error error : Except IoError Unit)
            session.outbox) := by
  obtain ⟨before, ⟨last, said⟩, hstands, hend⟩ :=
    foldl_advance_stands (reads inlet) (start_stands limit handler sink first)
  rw [arriving_reads, List.nil_append] at hstands
  rw [serve]
  rcases hend with hend | ⟨session, result, rfl, ⟨event, hevent, hfails⟩, hend⟩
  · rw [hend]
    cases hstands with
    | reading hserved hmoved hempty =>
      exact ⟨_, _, _, _, rfl, .inl ⟨_, hserved, hmoved, .inl hempty, fun _ => rfl⟩⟩
    | @ended session _ _ halt hserved hover hmoved hempty =>
      refine ⟨_, _, _, _, rfl, .inl ⟨_, hserved, hmoved, ?_, fun _ => rfl⟩⟩
      by_cases hresult : halt.result = .ok ()
      · exact .inl (hempty hresult)
      · exact .inr ⟨hresult, rfl⟩
    | broken hmoved => exact ⟨_, _, _, _, rfl, .inr ⟨_, hmoved⟩⟩
  · rw [hend]
    cases hstands with
    | reading hserved hmoved hempty =>
      refine ⟨_, _, _, _, rfl, .inl ⟨_, hserved, hmoved, .inl hempty, ?_⟩⟩
      intro hinlet
      have hflows := reads_flow hinlet event hevent
      rw [hfails] at hflows
      cases hflows

theorem sent_settle {sink : Sink} {first : σ} {halt : Halt} {result : Except Fault Unit}
    {session : Session} (hinward : handler.Inward)
    (hserved : Served limit handler stream first said halt last)
    (hmoved : ({ sink := sink } : Outbox).Moved said.octets (.ok () : Except IoError Unit) session.outbox)
    (hwaits : session.outbox.queued = [] ∨ result ≠ .ok () ∧ result = halt.result)
    (hsink : ¬ sink.Failed (settle result session).2.outbox.sink) :
    (settle result session).2.outbox.sink.sent = sink.sent ++ said.octets := by
  have hwire : ({ sink := sink } : Outbox).wire = sink.sent := List.append_nil _
  rw [← hwire, ← hmoved.whole () rfl]
  apply (settle_moved result session).2.2
  · rcases hwaits with hempty | ⟨hfault, hresult⟩
    · exact .inl hempty
    · refine .inr ⟨hfault, ?_⟩
      rw [hresult]
      exact hserved.result_ne_io hinward
  · intro hfailed
    exact hsink (hmoved.later.failed hfailed)

/-- Every answer is delivered before a session waits for its client, and before it is over.

* Whenever a session is about to read, each request in what arrived has been handled, and the sink has got just the
  replies.
* So it is when a session is over, unless the sink failed, up to where the stream was no longer to be handled.
* Whatever fails, the sink gets nothing but a front of the replies, even as the session is given up. -/
theorem answers_delivered (limit : Nat) {handler : Handler σ} (hinward : handler.Inward) (sink : Sink)
    (first : σ) :
    (∀ events session last,
      events.foldl (advance limit handler) (start limit handler sink first) = (.reading session, last) →
        ∃ said,
          events.foldl (advance limit handler.noting) (start limit handler.noting sink (first, [])) =
              (.reading session, last, said) ∧
            session.outbox.sink.sent = sink.sent ++ said.octets ∧
            Served limit handler (Inlet.arriving events) first said
              (.exhausted (.incomplete session.buffer)) last) ∧
      ∀ inlet, ∃ result session last said,
        run limit handler inlet sink first = (result, session, last) ∧
          run limit handler.noting inlet sink (first, []) = (result, session, last, said) ∧
          session.outbox.sink.sent <+: sink.sent ++ said.octets ∧
          session.output <+: sink.sent ++ said.octets ∧
          (¬ sink.Failed session.outbox.sink →
            session.outbox.sink.sent = sink.sent ++ said.octets ∧
              ∃ halt, Served limit handler (Inlet.arriving inlet) first said halt last) := by
  have hwire : ({ sink := sink } : Outbox).wire = sink.sent := List.append_nil _
  constructor
  · intro events session last hplain
    obtain ⟨before, ⟨state, said⟩, hstands, hend⟩ :=
      foldl_advance_stands events (start_stands limit handler sink first)
    rw [List.nil_append] at hstands
    rw [foldl_noting limit handler sink first [] events] at hplain
    rcases hend with hend | ⟨_, result, -, -, hend⟩
    · rw [hend] at hplain
      obtain ⟨rfl, rfl⟩ := Prod.mk.inj hplain
      refine ⟨said, hend, ?_⟩
      cases hstands with
      | reading hserved hmoved hempty =>
        refine ⟨?_, hserved⟩
        rw [Outbox.sent_eq_wire _ hempty, hmoved.whole () rfl, hwire]
    · rw [hend] at hplain
      cases (Prod.mk.inj hplain).1
  · intro inlet
    obtain ⟨before, served, last, said, hserve, hcases⟩ := serve_cases limit handler inlet sink first
    have hnoting : run limit handler.noting inlet sink (first, []) =
        ((settle before served).1, (settle before served).2, last, said) := by
      rw [run, hserve]
    have hplain := run_noting limit handler sink first [] inlet
    rw [hnoting] at hplain
    obtain ⟨hlater, hfront, -⟩ := settle_moved before served
    have hprefix : (settle before served).2.outbox.wire <+: sink.sent ++ said.octets := by
      apply hfront.trans
      rw [← hwire]
      rcases hcases with ⟨_, _, hmoved, _⟩ | ⟨_, hmoved⟩
      · exact hmoved.front
      · exact hmoved.front
    refine ⟨_, _, last, said, hplain, hnoting, (Outbox.sent_prefix_wire _).trans hprefix,
      (Outbox.sent_abandon_prefix _).trans hprefix, ?_⟩
    intro hsink
    rcases hcases with ⟨halt, hserved, hmoved, hwaits, -⟩ | ⟨error, hmoved⟩
    · exact ⟨sent_settle hinward hserved hmoved hwaits hsink, halt, hserved⟩
    · exact absurd ((hmoved.failed error rfl).later hlater) hsink

/-- A lookup before a sink that takes five octets and then fails. -/
theorem answers_delivered_failing_write :
    (Service.handler fun _ => 9).Inward ∧
      ∃ result session last said,
        run 100 (Service.handler fun _ => 9)
            [.data (Packet.encode ⟨{ magic := 0x80, keyLength := 1, totalBody := 1 }, [107]⟩)]
            { writes := [.take 5, .fail ⟨.brokenPipe, "Broken pipe"⟩] } ({}, 0) =
          (result, session, last) ∧ session.output <+: [] ++ Transcript.octets said := by
  have hinward := Service.handler_inward fun _ => 9
  have hdelivered := answers_delivered 100 hinward
    { writes := [.take 5, .fail ⟨.brokenPipe, "Broken pipe"⟩] } ({}, 0)
  obtain ⟨result, session, last, said, hrun, -, -, houtput, -⟩ := hdelivered.2
    [.data (Packet.encode ⟨{ magic := 0x80, keyLength := 1, totalBody := 1 }, [107]⟩)]
  exact ⟨hinward, result, session, last, said, hrun, houtput⟩

/-- The stream alone decides what a session does before a sink that takes everything: which requests its handler is
asked in which order, the octets that are delivered when it returns, and its result.  How the stream is cut into reads,
and how often a read is interrupted, makes no difference. -/
theorem run_of_stream (limit : Nat) {handler : Handler σ} (hinward : handler.Inward) (stream : Octets)
    (first : σ) :
    ∃ said halt last, Served limit handler stream first said halt last ∧
      ∀ inlet sink, (∀ event ∈ inlet, event.flows) → Inlet.arriving inlet = stream → sink.Open →
        ∃ session, run limit handler inlet sink first = (halt.result, session, last) ∧
          run limit handler.noting inlet sink (first, []) = (halt.result, session, last, said) ∧
          session.outbox.sink.sent = sink.sent ++ said.octets := by
  obtain ⟨said, halt, last, hstream⟩ := Served.exists_of_stream limit handler stream first
  refine ⟨said, halt, last, hstream, ?_⟩
  intro inlet sink hinlet harrive hsink
  obtain ⟨result, session, final, noted, hserve, hcases⟩ := serve_cases limit handler inlet sink first
  rcases hcases with ⟨other, hserved, hmoved, hwaits, hresult⟩ | ⟨error, hmoved⟩
  · rw [harrive] at hserved
    obtain ⟨rfl, rfl, rfl⟩ := hserved.unique hstream
    have hkept := settle_of_ne_io (hserved.result_ne_io hinward) session
    have hnoting : run limit handler.noting inlet sink (first, []) =
        (other.result, (settle other.result session).2, final, noted) := by
      rw [run, hserve, hresult hinlet]
      simp only [hkept]
    rw [hresult hinlet] at hwaits
    refine ⟨(settle other.result session).2, ?_, hnoting, ?_⟩
    · rw [run_noting limit handler sink first [] inlet, hnoting]
    · exact sent_settle hinward hserved hmoved hwaits hsink.not_failed
  · exact absurd (hmoved.failed error rfl) hsink.not_failed

/-- A lookup that arrives at once, and the same one in two reads with an interruption between them. -/
theorem run_of_stream_two_deliveries :
    (Service.handler fun _ => 9).Inward ∧
      ∃ stream, stream = Packet.encode ⟨{ magic := 0x80, opcode := 0x00, keyLength := 1, totalBody := 1 }, [107]⟩ ∧
        ∃ said halt last, Served 100 (Service.handler fun _ => 9) stream ({}, 0) said halt last ∧
          ∀ inlet ∈ [[.data stream],
              [.data (stream.take 5), .fail ⟨.interrupted, ""⟩, .data (stream.drop 5)]],
            ∃ session, run 100 (Service.handler fun _ => 9) inlet {} ({}, 0) = (halt.result, session, last) ∧
              session.outbox.sink.sent = [] ++ said.octets := by
  have hinward := Service.handler_inward fun _ => 9
  have hsink : ({} : Sink).Open := ⟨nofun, nofun⟩
  refine ⟨hinward, _, rfl, ?_⟩
  obtain ⟨said, halt, last, hserved, hrun⟩ := run_of_stream 100 hinward
    (Packet.encode ⟨{ magic := 0x80, opcode := 0x00, keyLength := 1, totalBody := 1 }, [107]⟩) ({}, 0)
  refine ⟨said, halt, last, hserved, ?_⟩
  intro inlet hinlet
  have hdelivers : (∀ event ∈ inlet, event.flows) ∧ Inlet.arriving inlet =
      Packet.encode ⟨{ magic := 0x80, opcode := 0x00, keyLength := 1, totalBody := 1 }, [107]⟩ := by
    rcases List.mem_cons.mp hinlet with rfl | hsecond
    · decide
    · obtain rfl := List.mem_singleton.mp hsecond
      decide
  obtain ⟨session, hplain, -, hsent⟩ := hrun inlet {} hdelivers.1 hdelivers.2 hsink
  exact ⟨session, hplain, hsent⟩

end Session

end ShardedCache
