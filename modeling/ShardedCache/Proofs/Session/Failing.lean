import Mathlib.Control.Monad.Basic
import ShardedCache.Proofs.Session.Standing

namespace ShardedCache

theorem Served.of_mem_error {σ : Type} {limit : Nat} {handler : Handler σ} {stream : Octets} {state last : σ}
    {said : Transcript} {halt : Halt} {request : Packet} {fault : Fault}
    (h : Served limit handler stream state said halt last) (hfails : (request, .error fault) ∈ said) :
    halt = .failed fault ∧ ∃ answered : Transcript, said = answered ++ [(request, .error fault)] ∧
      ∀ asked ∈ answered, ∃ reply, asked.2 = .ok reply := by
  induction h with
  | exhausted hstop => cases hfails
  | failed hrequest hreply =>
    obtain ⟨rfl, hsame⟩ := Prod.mk.inj (List.mem_singleton.mp hfails)
    obtain rfl := Except.error.inj hsame
    exact ⟨rfl, [], rfl, nofun⟩
  | closed hrequest hreply hcloses =>
    have hsame := (Prod.mk.inj (List.mem_singleton.mp hfails)).2
    cases hsame
  | @answered other _ _ _ _ reply later _ hrequest hreply hopen hlater ih =>
    rcases List.mem_cons.mp hfails with hfront | hfails
    · cases (Prod.mk.inj hfront).2
    · obtain ⟨hhalt, answered, hsplit, hok⟩ := ih hfails
      refine ⟨hhalt, (other, .ok reply) :: answered, congrArg ((other, .ok reply) :: ·) hsplit, ?_⟩
      intro asked hasked
      rcases List.mem_cons.mp hasked with rfl | hasked
      · exact ⟨reply, rfl⟩
      · exact hok asked hasked

namespace Session

variable {σ : Type} {limit : Nat} {handler : Handler σ} {first : σ} {sink : Sink} {request : Packet}
  {fault : Fault}

theorem serve_of_failing (inlet : Inlet) (hsink : sink.Open)
    (hfails : (request, .error fault) ∈ (run limit handler.noting inlet sink (first, [])).2.2.2) :
    ∃ (answered : Transcript) (session : Session) (last : σ),
      serve limit handler.noting inlet sink (first, []) =
          (.error fault, session, last, answered ++ [(request, .error fault)]) ∧
        Served limit handler (Inlet.arriving inlet) first (answered ++ [(request, .error fault)])
          (.failed fault) last ∧
        (∀ asked ∈ answered, ∃ reply, asked.2 = .ok reply) ∧
        session.outbox.sink.Open ∧ session.outbox.wire = sink.sent ++ answered.octets := by
  have htranscript : (run limit handler.noting inlet sink (first, [])).2.2.2 =
      (serve limit handler.noting inlet sink (first, [])).2.2.2 := rfl
  rw [htranscript] at hfails
  obtain ⟨before, ⟨last, said⟩, hstands, hend⟩ :=
    foldl_advance_stands (reads inlet) (start_stands limit handler sink first)
  rw [arriving_reads, List.nil_append] at hstands
  have hsaid : (serve limit handler.noting inlet sink (first, [])).2.2.2 = said := by
    rw [serve]
    rcases hend with hend | ⟨session, result, rfl, -, hend⟩
    · rw [hend]
      cases before <;> rfl
    · rw [hend]
  rw [hsaid] at hfails
  cases hstands with
  | broken hmoved => exact absurd (hmoved.failed _ rfl) hsink.not_failed
  | reading hserved hmoved hempty => cases (hserved.of_mem_error hfails).1
  | @ended session _ _ halt hserved hover hmoved hempty =>
    obtain ⟨rfl, answered, rfl, hok⟩ := hserved.of_mem_error hfails
    have hserve : serve limit handler.noting inlet sink (first, []) =
        (.error fault, session, last, answered ++ [(request, .error fault)]) := by
      rcases hend with hend | ⟨_, _, hbefore, -⟩
      · rw [serve, hend]
        rfl
      · cases hbefore
    refine ⟨answered, session, last, hserve, hserved, hok, hsink.later hmoved.later, ?_⟩
    calc session.outbox.wire
      _ = ({ sink := sink } : Outbox).wire ++ Transcript.octets (answered ++ [(request, .error fault)]) :=
        hmoved.whole () rfl
      _ = (sink.sent ++ []) ++ (answered.octets ++ []) := by
        rw [Transcript.octets_append]
        rfl
      _ = sink.sent ++ answered.octets := by rw [List.append_nil, List.append_nil]

theorem settle_of_fault (fault : Fault) {session : Session} (hopen : session.outbox.sink.Open) :
    (settle (.error fault) session).2.output = session.outbox.wire ∧
      ((fault.isHangup || fault.isTimeout) = true → (settle (.error fault) session).1 = .ok ()) ∧
      ((fault.isHangup || fault.isTimeout) = false →
        (settle (.error fault) session).1 = .error fault ∧
          (settle (.error fault) session).2.outbox.queued = [] ∧
          (settle (.error fault) session).2.outbox.sink.sent = session.outbox.wire) := by
  rw [settle]
  cases fault.isHangup || fault.isTimeout with
  | true =>
    refine ⟨Outbox.sent_abandon_of_open hopen, fun _ => rfl, ?_⟩
    intro h
    cases h
  | false =>
    obtain ⟨after, hflush, hafter, hempty, hsent⟩ := Outbox.flush_of_open hopen
    have hkept : session.outbox.flush.2 = after := by rw [hflush]
    rw [if_neg Bool.false_ne_true, hkept]
    have houtput : after.abandon.sink.sent = session.outbox.wire := by
      rw [Outbox.sent_abandon_of_open hafter, Outbox.wire, hempty, List.append_nil, hsent]
    refine ⟨houtput, ?_, fun _ => ⟨rfl, hempty, hsent⟩⟩
    intro h
    cases h

/-- A handler is not asked again once it failed, whatever it failed of and however its requests arrived.  Before its
failure is reported all answers to earlier requests go out.  One that tells of a peer that went away or kept silent
too long ends the session without a report; the client gets its answers then as the session is given up. -/
theorem failure_reported (limit : Nat) (handler : Handler σ) (first : σ) (inlet : Inlet) (hsink : sink.Open)
    (hfails : (request, .error fault) ∈ (run limit handler.noting inlet sink (first, [])).2.2.2) :
    ∃ (answered : Transcript) (result : Except Fault Unit) (session : Session) (last : σ),
      run limit handler inlet sink first = (result, session, last) ∧
        run limit handler.noting inlet sink (first, []) =
          (result, session, last, answered ++ [(request, .error fault)]) ∧
        (∀ asked ∈ answered, ∃ reply, asked.2 = .ok reply) ∧
        Served limit handler (Inlet.arriving inlet) first (answered ++ [(request, .error fault)])
          (.failed fault) last ∧
        session.output = sink.sent ++ answered.octets ∧
        ((fault.isHangup || fault.isTimeout) = true → result = .ok ()) ∧
        ((fault.isHangup || fault.isTimeout) = false →
          result = .error fault ∧ session.outbox.queued = [] ∧
            session.outbox.sink.sent = sink.sent ++ answered.octets) := by
  obtain ⟨answered, session, last, hserve, hserved, hok, hopen, hwire⟩ := serve_of_failing inlet hsink hfails
  have hnoting : run limit handler.noting inlet sink (first, []) =
      ((settle (.error fault) session).1, (settle (.error fault) session).2, last,
        answered ++ [(request, .error fault)]) := by
    rw [run, hserve]
  have hplain := run_noting limit handler sink first [] inlet
  rw [hnoting] at hplain
  have hsettled := settle_of_fault fault hopen
  rw [hwire] at hsettled
  exact ⟨answered, _, _, last, hplain, hnoting, hok, hserved, hsettled⟩

end Session

def Handler.answeringOnce (reply : Octets) (fault : Fault) : Handler Bool := fun _ answered =>
  if answered then (.error fault, true) else (.ok (.send reply), true)

def Packet.bare : Packet := ⟨{ magic := Header.requestMagic }, []⟩

namespace Session

/-- Two requests in one read, of which the second one fails for want of a backend. -/
theorem failure_reported_refused :
    let refused : Fault := .io ⟨.connectionRefused, "refused"⟩
    let handler := Handler.answeringOnce [1, 2] refused
    let inlet : Inlet := [.data (Packet.bare.encode ++ Packet.bare.encode)]
    ({} : Sink).Open ∧ (.bare, .error refused) ∈ (run 100 handler.noting inlet {} (false, [])).2.2.2 ∧
      ∃ session, run 100 handler inlet {} false = (.error refused, session, true) ∧
        session.outbox.sink.sent = [1, 2] := by
  intro refused handler inlet
  have hsink : ({} : Sink).Open := ⟨nofun, nofun⟩
  have hnoted : (run 100 handler.noting inlet {} (false, [])).2.2 =
      (true, [(.bare, .ok (.send [1, 2]))] ++ [(.bare, .error refused)]) := by
    decide +kernel
  have hfails : (.bare, .error refused) ∈ (run 100 handler.noting inlet {} (false, [])).2.2.2 := by
    rw [hnoted]
    exact List.mem_append_right _ List.mem_cons_self
  obtain ⟨answered, result, session, last, hrun, hnoting, -, -, -, -, hloud⟩ :=
    failure_reported 100 handler false inlet hsink hfails
  rw [hnoting] at hnoted
  obtain ⟨rfl, hsaid⟩ := Prod.mk.inj hnoted
  obtain ⟨rfl, -⟩ := List.append_inj' hsaid rfl
  obtain ⟨rfl, -, hsent⟩ := hloud rfl
  exact ⟨hsink, hfails, session, hrun, hsent⟩

/-- A handler's failure that reads like a client's is not reported, and the answer before it does not go out. -/
theorem failure_withheld :
    let gone : Fault := .io ⟨.brokenPipe, "backend gone"⟩
    let inlet : Inlet := [.data (Packet.bare.encode ++ Packet.bare.encode)]
    let after := run 100 (Handler.answeringOnce [1, 2] gone).noting inlet {} (false, [])
    after.2.2.2 = [(.bare, .ok (.send [1, 2])), (.bare, .error gone)] ∧ after.1 = .ok () ∧
      after.2.1.outbox.sink.sent = [] ∧ after.2.1.outbox.queued = [1, 2] := by
  decide +kernel

end Session

end ShardedCache
