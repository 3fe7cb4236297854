import ShardedCache.Proofs.Frame.Verdicts
import ShardedCache.Proofs.Session.Delivery

/-! `Served` cuts a client's stream from front to back, and every stream is served in exactly one way.
`Handler.noting` writes down what a handler is asked, and does not disturb it. -/

namespace ShardedCache

namespace Frame

/-- The front of a stream off which no further request can be cut, and why. -/
inductive Stops (limit : Nat) : Octets → Ending → Prop
  | short {rest : Octets} : rest.length < Header.size → Stops limit rest (.incomplete rest)
  | unfinished {header : Header} {body : Octets} :
    header.totalBody.toNat ≤ limit → body.length < header.totalBody.toNat →
      Stops limit (header.encode ++ body) (.incomplete (header.encode ++ body))
  /-- The header announces too much, whether or not it is there. -/
  | oversized {header : Header} {rest : Octets} :
    limit < header.totalBody.toNat →
      Stops limit (header.encode ++ rest)
        (.violated (.framing (.bodyTooLong header.totalBody.toNat limit)))
  | foreign {p : Packet} {rest : Octets} :
    p.Complete → p.header.totalBody.toNat ≤ limit → p.header.magic ≠ Header.requestMagic →
      Stops limit (p.encode ++ rest) (.violated (.framing (.wrongMagic p.header.magic)))

/-- Cutting stops just where no request stands in front. -/
theorem stops_iff {limit : Nat} {stream : Octets} {ending : Ending} :
    Stops limit stream ending ↔ cutAll limit stream = ([], ending) := by
  constructor
  · intro h
    cases h with
    | short hshort => exact cutAll_of_none (Comes.short hshort).cut_eq
    | unfinished hlimit hbody => exact cutAll_of_none (Comes.unfinished hlimit hbody).cut_eq
    | oversized hlimit => exact cutAll_of_error (Comes.tooLong hlimit).cut_eq
    | foreign hp hlimit hmagic => exact cutAll_of_error (Comes.foreign hp hlimit hmagic).cut_eq
  · intro h
    obtain ⟨verdict, answer, rest, hcomes⟩ := Comes.exists_of_buffer limit stream
    have hcut := hcomes.cut_eq
    cases hcomes with
    | taken _ =>
      rw [cutAll_of_packet hcut] at h
      cases h
    | short hshort =>
      rw [cutAll_of_none hcut] at h
      obtain rfl := (Prod.mk.inj h).2
      exact .short hshort
    | unfinished hlimit hbody =>
      rw [cutAll_of_none hcut] at h
      obtain rfl := (Prod.mk.inj h).2
      exact .unfinished hlimit hbody
    | tooLong hlimit =>
      rw [cutAll_of_error hcut] at h
      obtain rfl := (Prod.mk.inj h).2
      exact .oversized hlimit
    | foreign hp hlimit hmagic =>
      rw [cutAll_of_error hcut] at h
      obtain rfl := (Prod.mk.inj h).2
      exact .foreign hp hlimit hmagic

namespace Stops

variable {limit : Nat} {stream : Octets} {ending : Ending}

theorem not_request (h : Stops limit stream ending) {request : Packet} (hrequest : request.Assembled limit)
    (rest : Octets) : stream ≠ request.encode ++ rest := by
  intro heq
  subst heq
  have hcut := stops_iff.mp h
  rw [cutAll_encode_append hrequest] at hcut
  simp at hcut

theorem eq_of_incomplete {rest : Octets} (h : Stops limit stream (.incomplete rest)) : stream = rest := by
  cases h with
  | short _ => rfl
  | unfinished _ _ => rfl

theorem append_of_violated {fault : Fault} (h : Stops limit stream (.violated fault)) (more : Octets) :
    Stops limit (stream ++ more) (.violated fault) := by
  rw [stops_iff, cutAll_append, stops_iff.mp h]

theorem nil (limit : Nat) : Stops limit [] (.incomplete []) :=
  .short (by decide)

end Stops

/-- A buffer is the requests cut off it, one after the other, and what cutting stops at. -/
theorem exists_of_cutAll (limit : Nat) (buffer : Octets) :
    ∃ rest, buffer = (cutAll limit buffer).1.flatMap Packet.encode ++ rest ∧
      Stops limit rest (cutAll limit buffer).2 := by
  induction hn : buffer.length using Nat.strongRecOn generalizing buffer with
  | ind n ih =>
    match hcut : cut limit buffer with
    | (.ok none, _) =>
      have hall := cutAll_of_none hcut
      refine ⟨buffer, by rw [hall]; rfl, ?_⟩
      rw [stops_iff, hall]
    | (.error fault, _) =>
      have hall := cutAll_of_error hcut
      refine ⟨buffer, by rw [hall]; rfl, ?_⟩
      rw [stops_iff, hall]
    | (.ok (some p), left) =>
      have hlt := length_snd_cut_lt hcut
      obtain ⟨rest, hleft, hstop⟩ := ih left.length (by omega) left rfl
      rw [cutAll_of_packet hcut]
      refine ⟨rest, ?_, hstop⟩
      rw [List.flatMap_cons, List.append_assoc, ← hleft]
      exact (cut_eq_packet_iff.mp hcut).1

end Frame

abbrev Transcript := List (Packet × Except Fault Reply)

/-- The octets of all replies.  A fault says nothing. -/
def Transcript.octets (said : Transcript) : Octets :=
  said.flatMap fun
    | (_, .ok reply) => reply.octets
    | (_, .error _) => []

theorem Transcript.octets_append (said more : Transcript) :
    Transcript.octets (said ++ more) = said.octets ++ more.octets :=
  List.flatMap_append

namespace Handler

variable {σ : Type}

/-- Handles as `handler` does, and writes down what was asked and what was said. -/
def noting (handler : Handler σ) : Handler (σ × Transcript) := fun request (state, said) =>
  let (answer, state) := handler request state
  (answer, state, said ++ [(request, answer)])

end Handler

/-- Why no more of a stream is handled. -/
inductive Halt where
  /-- No further request can be cut off. -/
  | exhausted (ending : Frame.Ending)
  | closed
  | failed (fault : Fault)

def Halt.result : Halt → Except Fault Unit
  | .exhausted (.incomplete _) | .closed => .ok ()
  | .exhausted (.violated fault) | .failed fault => .error fault

section Streams

variable {σ : Type}

/-- From a state, a handler is asked for the requests of a stream, front to back, up to the first that it fails on
or after which the connection closes, or as far as requests stand in the stream. -/
inductive Served (limit : Nat) (handler : Handler σ) : Octets → σ → Transcript → Halt → σ → Prop
  | exhausted {stream : Octets} {state : σ} {ending : Frame.Ending} :
    Frame.Stops limit stream ending → Served limit handler stream state [] (.exhausted ending) state
  | failed {request : Packet} {rest : Octets} {state after : σ} {fault : Fault} :
    request.Assembled limit → handler request state = (.error fault, after) →
      Served limit handler (request.encode ++ rest) state [(request, .error fault)] (.failed fault) after
  | closed {request : Packet} {rest : Octets} {state after : σ} {reply : Reply} :
    request.Assembled limit → handler request state = (.ok reply, after) → reply.closes = true →
      Served limit handler (request.encode ++ rest) state [(request, .ok reply)] .closed after
  | answered {request : Packet} {rest : Octets} {state after last : σ} {reply : Reply}
      {later : Transcript} {halt : Halt} :
    request.Assembled limit → handler request state = (.ok reply, after) → reply.closes = false →
      Served limit handler rest after later halt last →
      Served limit handler (request.encode ++ rest) state ((request, .ok reply) :: later) halt last

namespace Served

variable {limit : Nat} {handler : Handler σ} {stream : Octets} {state last : σ} {said : Transcript}
  {halt : Halt}

theorem exists_of_stream (limit : Nat) (handler : Handler σ) (stream : Octets) (state : σ) :
    ∃ said halt last, Served limit handler stream state said halt last := by
  -- Induction on the length of the stream, since a request that is cut off leaves a shorter one.
  induction hn : stream.length using Nat.strongRecOn generalizing stream state with
  | ind n ih =>
    match hcut : Frame.cut limit stream with
    | (.ok none, _) =>
      exact ⟨_, _, _, .exhausted (Frame.stops_iff.mpr (Frame.cutAll_of_none hcut))⟩
    | (.error fault, _) =>
      exact ⟨_, _, _, .exhausted (Frame.stops_iff.mpr (Frame.cutAll_of_error hcut))⟩
    | (.ok (some request), rest) =>
      have hlt := Frame.length_snd_cut_lt hcut
      obtain ⟨rfl, hrequest⟩ := Frame.cut_eq_packet_iff.mp hcut
      match hreply : handler request state with
      | (.error fault, after) => exact ⟨_, _, _, .failed hrequest hreply⟩
      | (.ok reply, after) =>
        by_cases hcloses : reply.closes = true
        · exact ⟨_, _, _, .closed hrequest hreply hcloses⟩
        · obtain ⟨later, halt, last, hlater⟩ := ih rest.length (by omega) rest after rfl
          exact ⟨_, _, _, .answered hrequest hreply (by simpa using hcloses) hlater⟩

theorem of_encode_append {request : Packet} {rest : Octets} (hrequest : request.Assembled limit)
    (h : Served limit handler (request.encode ++ rest) state said halt last) :
    (∃ fault, handler request state = (.error fault, last) ∧ said = [(request, .error fault)] ∧
        halt = .failed fault) ∨
      (∃ reply, handler request state = (.ok reply, last) ∧ reply.closes = true ∧
        said = [(request, .ok reply)] ∧ halt = .closed) ∨
      ∃ reply after later, handler request state = (.ok reply, after) ∧ reply.closes = false ∧
        said = (request, .ok reply) :: later ∧ Served limit handler rest after later halt last := by
  have hfront {other : Packet} {more : Octets} (hother : other.Assembled limit)
      (heq : request.encode ++ rest = other.encode ++ more) : request = other ∧ rest = more := by
    have hsame := Packet.Complete.eq_of_encode_append hrequest.total hother.total heq
    subst hsame
    exact ⟨rfl, List.append_cancel_left heq⟩
  generalize hstream : request.encode ++ rest = stream at h
  cases h with
  | exhausted hstop => exact absurd hstream.symm (hstop.not_request hrequest rest)
  | failed hother hreply =>
    obtain ⟨rfl, rfl⟩ := hfront hother hstream
    exact .inl ⟨_, hreply, rfl, rfl⟩
  | closed hother hreply hcloses =>
    obtain ⟨rfl, rfl⟩ := hfront hother hstream
    exact .inr (.inl ⟨_, hreply, hcloses, rfl, rfl⟩)
  | answered hother hreply hcloses hlater =>
    obtain ⟨rfl, rfl⟩ := hfront hother hstream
    exact .inr (.inr ⟨_, _, _, hreply, hcloses, rfl, hlater⟩)

/-- A stream is served in one way only. -/
theorem unique {said' : Transcript} {halt' : Halt} {last' : σ}
    (h : Served limit handler stream state said halt last)
    (h' : Served limit handler stream state said' halt' last') :
    said = said' ∧ halt = halt' ∧ last = last' := by
  -- Along the first way; the request in front, or the lack of one, decides what the second one can be.
  induction h generalizing said' halt' last' with
  | @exhausted stream state ending hstop =>
    cases h' with
    | exhausted hother =>
      have hends := (Frame.stops_iff.mp hstop).symm.trans (Frame.stops_iff.mp hother)
      obtain rfl := (Prod.mk.inj hends).2
      exact ⟨rfl, rfl, rfl⟩
    | failed hrequest _ => exact absurd rfl (hstop.not_request hrequest _)
    | closed hrequest _ _ => exact absurd rfl (hstop.not_request hrequest _)
    | answered hrequest _ _ _ => exact absurd rfl (hstop.not_request hrequest _)
  | failed hrequest hreply =>
    rcases of_encode_append hrequest h' with
      ⟨fault, hother, rfl, rfl⟩ | ⟨reply, hother, -⟩ | ⟨reply, after, later, hother, -⟩
    · obtain ⟨hfault, rfl⟩ := Prod.mk.inj (hreply.symm.trans hother)
      obtain rfl := Except.error.inj hfault
      exact ⟨rfl, rfl, rfl⟩
    · cases hreply.symm.trans hother
    · cases hreply.symm.trans hother
  | closed hrequest hreply hcloses =>
    rcases of_encode_append hrequest h' with
      ⟨fault, hother, -⟩ | ⟨reply, hother, -, rfl, rfl⟩ | ⟨reply, after, later, hother, hopen, -⟩
    · cases hreply.symm.trans hother
    · obtain ⟨hsame, rfl⟩ := Prod.mk.inj (hreply.symm.trans hother)
      obtain rfl := Except.ok.inj hsame
      exact ⟨rfl, rfl, rfl⟩
    · obtain ⟨hsame, -⟩ := Prod.mk.inj (hreply.symm.trans hother)
      obtain rfl := Except.ok.inj hsame
      rw [hcloses] at hopen
      cases hopen
  | answered hrequest hreply hopen _ ih =>
    rcases of_encode_append hrequest h' with
      ⟨fault, hother, -⟩ | ⟨reply, hother, hcloses, -⟩ | ⟨reply, after, later, hother, -, rfl, hlater⟩
    · cases hreply.symm.trans hother
    · obtain ⟨hsame, -⟩ := Prod.mk.inj (hreply.symm.trans hother)
      obtain rfl := Except.ok.inj hsame
      rw [hopen] at hcloses
      cases hcloses
    · obtain ⟨hsame, rfl⟩ := Prod.mk.inj (hreply.symm.trans hother)
      obtain rfl := Except.ok.inj hsame
      obtain ⟨rfl, rfl, rfl⟩ := ih hlater
      exact ⟨rfl, rfl, rfl⟩

theorem append {rest more : Octets} {later : Transcript} {next : σ}
    (h : Served limit handler stream state said (.exhausted (.incomplete rest)) last)
    (hlater : Served limit handler (rest ++ more) last later halt next) :
    Served limit handler (stream ++ more) state (said ++ later) halt next := by
  -- Only a way that was exhausted goes on, so that its halt is general in the induction.
  generalize hhalt : Halt.exhausted (.incomplete rest) = before at h
  induction h with
  | exhausted hstop =>
    obtain rfl := Halt.exhausted.inj hhalt
    rw [hstop.eq_of_incomplete]
    exact hlater
  | failed _ _ => cases hhalt
  | closed _ _ _ => cases hhalt
  | answered hrequest hreply hopen _ ih =>
    rw [List.append_assoc]
    exact .answered hrequest hreply hopen (ih hlater hhalt)

theorem append_of_over (h : Served limit handler stream state said halt last)
    (hover : ∀ rest, halt ≠ .exhausted (.incomplete rest)) (more : Octets) :
    Served limit handler (stream ++ more) state said halt last := by
  induction h with
  | @exhausted stream state ending hstop =>
    cases ending with
    | incomplete rest => exact absurd rfl (hover rest)
    | violated fault => exact .exhausted (hstop.append_of_violated more)
  | failed hrequest hreply =>
    rw [List.append_assoc]
    exact .failed hrequest hreply
  | closed hrequest hreply hcloses =>
    rw [List.append_assoc]
    exact .closed hrequest hreply hcloses
  | answered hrequest hreply hopen _ ih =>
    rw [List.append_assoc]
    exact .answered hrequest hreply hopen (ih hover)

end Served

namespace Session

section Views

variable {τ : Type} {fine : Handler τ} {coarse : Handler σ} (view : τ → σ)
  (h : ∀ request state, coarse request (view state) =
    ((fine request state).1, view (fine request state).2))

include h

theorem handleAll_view (requests : List Packet) (state : τ) (box : Outbox) :
    handleAll coarse requests (view state) box =
      ((handleAll fine requests state box).1, view (handleAll fine requests state box).2.1,
        (handleAll fine requests state box).2.2) := by
  induction requests generalizing state box with
  | nil => rfl
  | cons request requests ih =>
    simp only [handleAll, h]
    match fine request state with
    | (.error fault, after) => rfl
    | (.ok reply, after) =>
      match hperform : perform reply box with
      | (.error error, box) => simp only [hperform]
      | (.ok false, box) => simp only [hperform]
      | (.ok true, box) =>
        simp only [hperform]
        exact ih after box

theorem digest_view (limit : Nat) (state : τ) (session : Session) :
    digest limit coarse (view state) session =
      ((digest limit fine state session).1, view (digest limit fine state session).2) := by
  simp only [digest, handleAll_view view h]
  -- How it goes on depends on the outcome alone, which is the same on either side.
  match handleAll fine (Frame.cutAll limit session.buffer).1 state session.outbox,
    (Frame.cutAll limit session.buffer).2 with
  | (.error fault, after, box), _ => rfl
  | (.ok false, after, box), _ => rfl
  | (.ok true, after, box), .violated fault => rfl
  | (.ok true, after, box), .incomplete rest =>
    match box.flush with
    | (.error error, box) => rfl
    | (.ok (), box) => rfl

theorem advance_view (limit : Nat) (progress : Progress) (state : τ) (event : ReadEvent) :
    advance limit coarse (progress, view state) event =
      ((advance limit fine (progress, state) event).1,
        view (advance limit fine (progress, state) event).2) := by
  match progress, event with
  | .ended result session, _ => rfl
  | .reading session, .data [] => rfl
  | .reading session, .data (b :: bs) => exact digest_view view h limit state _
  | .reading session, .fail error =>
    simp only [advance, receive]
    by_cases hkind : error.kind = .interrupted
    · simp only [if_pos hkind]
      exact digest_view view h limit state session
    · simp only [if_neg hkind]

theorem foldl_view (limit : Nat) (events : List ReadEvent) (sink : Sink) (state : τ) :
    events.foldl (advance limit coarse) (start limit coarse sink (view state)) =
      ((events.foldl (advance limit fine) (start limit fine sink state)).1,
        view (events.foldl (advance limit fine) (start limit fine sink state)).2) := by
  have hfold (events : List ReadEvent) (progress : Progress) (state : τ) :
      events.foldl (advance limit coarse) (progress, view state) =
        ((events.foldl (advance limit fine) (progress, state)).1,
          view (events.foldl (advance limit fine) (progress, state)).2) := by
    induction events generalizing progress state with
    | nil => rfl
    | cons event events ih =>
      rw [List.foldl_cons, List.foldl_cons, advance_view view h]
      exact ih _ _
  rw [start, digest_view view h, hfold, ← start]

/-- A handler that is another one seen from outside serves as that one does. -/
theorem run_view (limit : Nat) (inlet : Inlet) (sink : Sink) (state : τ) :
    run limit coarse inlet sink (view state) =
      ((run limit fine inlet sink state).1, (run limit fine inlet sink state).2.1,
        view (run limit fine inlet sink state).2.2) := by
  have hserve : serve limit coarse inlet sink (view state) =
      ((serve limit fine inlet sink state).1, (serve limit fine inlet sink state).2.1,
        view (serve limit fine inlet sink state).2.2) := by
    rw [serve, serve, foldl_view view h]
    match (reads inlet).foldl (advance limit fine) (start limit fine sink state) with
    | (.reading session, state) => rfl
    | (.ended result session, state) => rfl
  simp only [run, hserve]

end Views

variable (limit : Nat) (handler : Handler σ) (sink : Sink) (state : σ) (said : Transcript)

theorem foldl_noting (events : List ReadEvent) :
    events.foldl (advance limit handler) (start limit handler sink state) =
      ((events.foldl (advance limit handler.noting)
          (start limit handler.noting sink (state, said))).1,
        (events.foldl (advance limit handler.noting)
          (start limit handler.noting sink (state, said))).2.1) :=
  foldl_view Prod.fst (fun _ _ => rfl) limit events sink (state, said)

/-- Writing down what a handler is asked makes no difference to what it serves. -/
theorem run_noting (inlet : Inlet) :
    run limit handler inlet sink state =
      ((run limit handler.noting inlet sink (state, said)).1,
        (run limit handler.noting inlet sink (state, said)).2.1,
        (run limit handler.noting inlet sink (state, said)).2.2.1) :=
  run_view Prod.fst (fun _ _ => rfl) limit inlet sink (state, said)

end Session

end Streams

end ShardedCache
