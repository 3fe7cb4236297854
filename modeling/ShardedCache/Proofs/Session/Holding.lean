import ShardedCache.Proofs.Frame.Verdicts
import ShardedCache.Proofs.Session.Account

namespace ShardedCache

def ReadEvent.octets : ReadEvent → Octets
  | .data chunk => chunk
  | .fail _ => []

namespace Session

inductive Stage where
  | cutting
  | serving (request : Packet)
  | flushing
  | reading
  | over (result : Except Fault Unit)

structure Moment (σ : Type) where
  stage : Stage
  buffer : Octets
  outbox : Outbox
  state : σ

section Loop

variable {σ : Type}

/-- One operation of a session's loop, with the read it meets if it is one. -/
inductive Step (limit : Nat) (handler : Handler σ) : Moment σ → List ReadEvent → Moment σ → Prop
  -- As long as a cut gives a request, that is served before the next cut.
  | cut {request : Packet} {buffer rest : Octets} {box : Outbox} {state : σ} :
    Frame.cut limit buffer = (.ok (some request), rest) →
      Step limit handler ⟨.cutting, buffer, box, state⟩ [] ⟨.serving request, rest, box, state⟩
  | starve {buffer rest : Octets} {box : Outbox} {state : σ} :
    Frame.cut limit buffer = (.ok none, rest) →
      Step limit handler ⟨.cutting, buffer, box, state⟩ [] ⟨.flushing, rest, box, state⟩
  | violate {fault : Fault} {buffer rest : Octets} {box : Outbox} {state : σ} :
    Frame.cut limit buffer = (.error fault, rest) →
      Step limit handler ⟨.cutting, buffer, box, state⟩ [] ⟨.over (.error fault), rest, box, state⟩
  | fail {request : Packet} {fault : Fault} {buffer : Octets} {box : Outbox} {state after : σ} :
    handler request state = (.error fault, after) →
      Step limit handler ⟨.serving request, buffer, box, state⟩ [] ⟨.over (.error fault), buffer, box, after⟩
  | lose {request : Packet} {reply : Reply} {error : IoError} {buffer : Octets} {box between : Outbox}
    {state after : σ} :
    handler request state = (.ok reply, after) → perform reply box = (.error error, between) →
      Step limit handler ⟨.serving request, buffer, box, state⟩ []
        ⟨.over (.error (.io error)), buffer, between, after⟩
  | close {request : Packet} {reply : Reply} {buffer : Octets} {box between : Outbox} {state after : σ} :
    handler request state = (.ok reply, after) → perform reply box = (.ok false, between) →
      Step limit handler ⟨.serving request, buffer, box, state⟩ [] ⟨.over (.ok ()), buffer, between, after⟩
  | answer {request : Packet} {reply : Reply} {buffer : Octets} {box between : Outbox} {state after : σ} :
    handler request state = (.ok reply, after) → perform reply box = (.ok true, between) →
      Step limit handler ⟨.serving request, buffer, box, state⟩ [] ⟨.cutting, buffer, between, after⟩
  | block {error : IoError} {buffer : Octets} {box between : Outbox} {state : σ} :
    box.flush = (.error error, between) →
      Step limit handler ⟨.flushing, buffer, box, state⟩ [] ⟨.over (.error (.io error)), buffer, between, state⟩
  | flush {buffer : Octets} {box between : Outbox} {state : σ} :
    box.flush = (.ok (), between) →
      Step limit handler ⟨.flushing, buffer, box, state⟩ [] ⟨.reading, buffer, between, state⟩
  | hangUp {buffer : Octets} {box : Outbox} {state : σ} :
    Step limit handler ⟨.reading, buffer, box, state⟩ [.data []] ⟨.over (.ok ()), buffer, box, state⟩
  | arrive {chunk buffer : Octets} {box : Outbox} {state : σ} :
    chunk ≠ [] →
      Step limit handler ⟨.reading, buffer, box, state⟩ [.data chunk] ⟨.cutting, buffer ++ chunk, box, state⟩
  | interrupt {error : IoError} {buffer : Octets} {box : Outbox} {state : σ} :
    error.kind = .interrupted →
      Step limit handler ⟨.reading, buffer, box, state⟩ [.fail error] ⟨.cutting, buffer, box, state⟩
  | breakOff {error : IoError} {buffer : Octets} {box : Outbox} {state : σ} :
    error.kind ≠ .interrupted →
      Step limit handler ⟨.reading, buffer, box, state⟩ [.fail error]
        ⟨.over (.error (.io error)), buffer, box, state⟩

/-- One operation after the other, from the first moment to the last, with the reads that they meet. -/
inductive Passes (limit : Nat) (handler : Handler σ) (first : Moment σ) : List ReadEvent → Moment σ → Prop
  | here : Passes limit handler first [] first
  | step {met new : List ReadEvent} {moment next : Moment σ} :
    Passes limit handler first met moment → Step limit handler moment new next →
      Passes limit handler first (met ++ new) next

variable {limit : Nat} {handler : Handler σ} {first moment last : Moment σ} {met more : List ReadEvent}

theorem Passes.trans (h : Passes limit handler first met moment)
    (h' : Passes limit handler moment more last) : Passes limit handler first (met ++ more) last := by
  induction h' with
  | here =>
    rw [List.append_nil]
    exact h
  | step _ hstep ih =>
    rw [← List.append_assoc]
    exact ih.step hstep

theorem Passes.cons (hstep : Step limit handler first met moment)
    (h : Passes limit handler moment more last) : Passes limit handler first (met ++ more) last :=
  (Passes.here.step hstep).trans h

def Moment.opening (sink : Sink) (state : σ) : Moment σ :=
  { stage := .cutting, buffer := [], outbox := { sink := sink }, state := state }

/-- The moment is one at which a session stands.  What a session that is over has left in its buffer is not asked. -/
def Moment.Shows (moment : Moment σ) : Progress × σ → Prop
  | (.reading session, state) => moment = ⟨.reading, session.buffer, session.outbox, state⟩
  | (.ended result session, state) => ∃ buffer, moment = ⟨.over result, buffer, session.outbox, state⟩

theorem shows_digest_of_answer {request : Packet} {reply : Reply} {buffer rest : Octets} {box between : Outbox}
    {state after : σ} (hcut : Frame.cut limit buffer = (.ok (some request), rest))
    (hreply : handler request state = (.ok reply, after)) (hperform : perform reply box = (.ok true, between))
    (h : moment.Shows (digest limit handler after ⟨rest, between⟩)) :
    moment.Shows (digest limit handler state ⟨buffer, box⟩) := by
  rcases hall : Frame.cutAll limit rest with ⟨requests, ending⟩
  rcases hhandle : handleAll handler requests after between with ⟨outcome, last, out⟩
  have hmore : Frame.cutAll limit buffer = (request :: requests, ending) := by
    rw [Frame.cutAll_of_packet hcut, hall]
  -- Both digests go on with the same requests.  They differ in what a session that is over has left behind.
  simp only [digest, hall, hhandle] at h
  simp only [digest, hmore, handleAll, hreply, hperform, hhandle]
  cases outcome with
  | error fault => exact h
  | ok goesOn =>
    cases goesOn with
    | false => exact h
    | true =>
      cases ending with
      | violated fault => exact h
      | incomplete left =>
        rcases hflush : out.flush with ⟨error | _, shut⟩ <;> simp only [hflush] at h ⊢ <;> exact h

/-- The loop comes to where digesting the buffer leaves a session. -/
theorem digest_passes (limit : Nat) (handler : Handler σ) (state : σ) (session : Session) :
    ∃ moment : Moment σ, Passes limit handler ⟨.cutting, session.buffer, session.outbox, state⟩ [] moment ∧
      moment.Shows (digest limit handler state session) := by
  obtain ⟨buffer, box⟩ := session
  induction hn : buffer.length using Nat.strongRecOn generalizing buffer box state with
  | ind n ih =>
    rcases hcut : Frame.cut limit buffer with ⟨fault | _ | request, rest⟩
    · refine ⟨_, Passes.here.step (.violate hcut), ?_⟩
      simp only [digest, Frame.cutAll_of_error hcut, handleAll]
      exact ⟨rest, rfl⟩
    · have hall := Frame.cutAll_of_none hcut
      obtain rfl := Frame.snd_cut_of_none hcut
      have hstarved : Passes limit handler ⟨.cutting, rest, box, state⟩ [] ⟨.flushing, rest, box, state⟩ :=
        Passes.here.step (.starve hcut)
      rcases hflush : box.flush with ⟨error | _, between⟩
      · refine ⟨_, hstarved.step (.block hflush), ?_⟩
        simp only [digest, hall, handleAll, hflush]
        exact ⟨rest, rfl⟩
      · refine ⟨_, hstarved.step (.flush hflush), ?_⟩
        simp only [digest, hall, handleAll, hflush]
        rfl
    · have hall := Frame.cutAll_of_packet hcut
      have htaken :
          Passes limit handler ⟨.cutting, buffer, box, state⟩ [] ⟨.serving request, rest, box, state⟩ :=
        Passes.here.step (.cut hcut)
      rcases hreply : handler request state with ⟨fault | reply, after⟩
      · refine ⟨_, htaken.step (.fail hreply), ?_⟩
        simp only [digest, hall, handleAll, hreply]
        exact ⟨rest, rfl⟩
      rcases hperform : perform reply box with ⟨error | _ | _, between⟩
      · refine ⟨_, htaken.step (.lose hreply hperform), ?_⟩
        simp only [digest, hall, handleAll, hreply, hperform]
        exact ⟨rest, rfl⟩
      · refine ⟨_, htaken.step (.close hreply hperform), ?_⟩
        simp only [digest, hall, handleAll, hreply, hperform]
        exact ⟨rest, rfl⟩
      · have hlt : rest.length < n := hn ▸ Frame.length_snd_cut_lt hcut
        obtain ⟨moment, hpasses, hshows⟩ := ih rest.length hlt after rest between rfl
        refine ⟨moment, (htaken.step (.answer hreply hperform)).trans hpasses, ?_⟩
        exact shows_digest_of_answer hcut hreply hperform hshows

theorem receive_passes (limit : Nat) (handler : Handler σ) (event : ReadEvent) (state : σ) (session : Session) :
    ∃ moment : Moment σ,
      Passes limit handler ⟨.reading, session.buffer, session.outbox, state⟩ [event] moment ∧
        moment.Shows (receive limit handler event state session) := by
  cases event with
  | data chunk =>
    cases chunk with
    | nil => exact ⟨_, Passes.here.step .hangUp, session.buffer, rfl⟩
    | cons b chunk =>
      obtain ⟨moment, hpasses, hshows⟩ :=
        digest_passes limit handler state { session with buffer := session.buffer ++ b :: chunk }
      exact ⟨moment, .cons (.arrive (List.cons_ne_nil b chunk)) hpasses, hshows⟩
  | fail error =>
    rw [receive]
    by_cases hkind : error.kind = .interrupted
    · rw [if_pos hkind]
      obtain ⟨moment, hpasses, hshows⟩ := digest_passes limit handler state session
      exact ⟨moment, .cons (.interrupt hkind) hpasses, hshows⟩
    · rw [if_neg hkind]
      exact ⟨_, Passes.here.step (.breakOff hkind), session.buffer, rfl⟩

theorem foldl_passes (events : List ReadEvent) {before : Progress × σ} (h : moment.Shows before) :
    ∃ met last, met <+: events ∧ Passes limit handler moment met last ∧
      last.Shows (events.foldl (advance limit handler) before) := by
  induction events generalizing before moment with
  | nil => exact ⟨[], moment, List.prefix_rfl, .here, h⟩
  | cons event events ih =>
    rw [List.foldl_cons]
    rcases before with ⟨session | ⟨result, session⟩, state⟩
    · obtain rfl := h
      obtain ⟨next, hnext, hshows⟩ := receive_passes limit handler event state session
      obtain ⟨met, last, hmet, hpasses, hlast⟩ := ih hshows
      exact ⟨event :: met, last, (List.prefix_cons_inj event).mpr hmet, hnext.trans hpasses, hlast⟩
    · refine ⟨[], moment, List.nil_prefix, .here, ?_⟩
      rw [advance, foldl_advance_ended]
      exact h

theorem foldl_append_end (limit : Nat) (handler : Handler σ) (inlet : Inlet) (sink : Sink) (state : σ) :
    let result := serve limit handler inlet sink state
    (reads inlet ++ [ReadEvent.data []]).foldl (advance limit handler) (start limit handler sink state) =
      (.ended result.1 result.2.1, result.2.2) := by
  rw [List.foldl_append, serve]
  rcases (reads inlet).foldl (advance limit handler) (start limit handler sink state) with
    ⟨session | ⟨result, session⟩, last⟩ <;> rfl

/-- The loop comes to the result of the session, at the end of the stream if not before. -/
theorem serve_passes (limit : Nat) (handler : Handler σ) (inlet : Inlet) (sink : Sink) (state : σ) :
    let result := serve limit handler inlet sink state
    ∃ met buffer, met <+: reads inlet ++ [.data []] ∧
      Passes limit handler (.opening sink state) met ⟨.over result.1, buffer, result.2.1.outbox, result.2.2⟩ := by
  intro result
  obtain ⟨moment, hfirst, hshows⟩ := digest_passes limit handler state { outbox := { sink := sink } }
  obtain ⟨met, last, hmet, hpasses, hlast⟩ := foldl_passes (reads inlet ++ [.data []]) hshows
  rw [← start, foldl_append_end] at hlast
  obtain ⟨buffer, rfl⟩ := hlast
  exact ⟨met, buffer, hmet, hfirst.trans hpasses⟩

theorem length_le_of_mem_portions (chunk : Octets) :
    ∀ piece ∈ portions readSize chunk, piece.length ≤ readSize := by
  have hsize : 0 < readSize := by decide
  induction chunk using portions.induct readSize with
  | case1 chunk hroom ih =>
    intro piece hpiece
    rw [portions, if_pos hroom] at hpiece
    rcases List.mem_cons.mp hpiece with rfl | hpiece
    · exact List.length_take_le _ _
    · exact ih piece hpiece
  | case2 chunk hroom =>
    intro piece hpiece
    rw [portions, if_neg hroom] at hpiece
    obtain rfl := List.mem_singleton.mp hpiece
    omega

theorem length_octets_of_mem_reads (inlet : Inlet) : ∀ event ∈ reads inlet, event.octets.length ≤ readSize := by
  intro event hevent
  obtain ⟨source, -, hmem⟩ := List.mem_flatMap.mp hevent
  cases source with
  | data chunk =>
    obtain ⟨piece, hpiece, rfl⟩ := List.mem_map.mp hmem
    exact length_le_of_mem_portions chunk piece hpiece
  | fail error =>
    obtain rfl := List.mem_singleton.mp hmem
    exact Nat.zero_le readSize

/-- How much a session may hold: by the time it waits for a read, less than the longest frame. -/
structure Moment.Bounded (limit : Nat) (moment : Moment σ) : Prop where
  always : moment.buffer.length < Header.size + limit + readSize
  flushing : moment.stage = .flushing → moment.buffer.length < Header.size + limit
  reading : moment.stage = .reading → moment.buffer.length < Header.size + limit

theorem Moment.Bounded.of_le (h : moment.Bounded limit) (hle : last.buffer.length ≤ moment.buffer.length)
    (hflushing : last.stage ≠ .flushing) (hreading : last.stage ≠ .reading) : last.Bounded limit where
  always := Nat.lt_of_le_of_lt hle h.always
  flushing hstage := absurd hstage hflushing
  reading hstage := absurd hstage hreading

theorem Step.bounded (h : Step limit handler moment met last) (hbound : moment.Bounded limit)
    (hmet : ∀ event ∈ met, event.octets.length ≤ readSize) : last.Bounded limit := by
  cases h with
  | cut hcut => exact hbound.of_le (Frame.length_snd_cut_le hcut) nofun nofun
  | violate hcut => exact hbound.of_le (Frame.length_snd_cut_le hcut) nofun nofun
  | starve hcut =>
    -- Nothing complete and nothing too long is left, or the cut would have taken or refused it.
    have hwaiting := Frame.length_of_waiting hcut
    exact ⟨Nat.lt_add_right readSize hwaiting, fun _ => hwaiting, nofun⟩
  | flush _ => exact ⟨hbound.always, nofun, fun _ => hbound.flushing rfl⟩
  | @arrive chunk buffer box state _ =>
    have hkept : buffer.length < Header.size + limit := hbound.reading rfl
    have hchunk : chunk.length ≤ readSize := hmet (.data chunk) List.mem_cons_self
    refine ⟨?_, nofun, nofun⟩
    calc
      (buffer ++ chunk).length = buffer.length + chunk.length := List.length_append
      _ < Header.size + limit + readSize := Nat.add_lt_add_of_lt_of_le hkept hchunk
  | fail _ | lose _ _ | close _ _ | answer _ _ | block _ | hangUp | interrupt _ | breakOff _ =>
    exact hbound.of_le (Nat.le_refl _) nofun nofun

theorem Passes.bounded (h : Passes limit handler first met last) (hbound : first.Bounded limit)
    (hmet : ∀ event ∈ met, event.octets.length ≤ readSize) : last.Bounded limit := by
  induction h with
  | here => exact hbound
  | step _ hstep ih =>
    have hbefore := ih fun event hevent => hmet event (List.mem_append_left _ hevent)
    exact hstep.bounded hbefore fun event hevent => hmet event (List.mem_append_right _ hevent)

/-- Whatever a client sends, however it arrives and whatever becomes of the requests, a session holds fewer octets
than a header, the longest body and one read, and fewer than a header and the longest body whenever it reads.  This
holds at every moment of the loop, and the loop comes to what the session comes to. -/
theorem buffer_bounded (limit : Nat) (handler : Handler σ) (inlet : Inlet) (sink : Sink) (state : σ) :
    let result := serve limit handler inlet sink state
    (∀ met moment, met <+: reads inlet ++ [.data []] →
      Passes limit handler (.opening sink state) met moment →
        moment.buffer.length < Header.size + limit + readSize ∧
          (moment.stage = .reading → moment.buffer.length < Header.size + limit)) ∧
      ∃ met buffer, met <+: reads inlet ++ [.data []] ∧
        Passes limit handler (.opening sink state) met
          ⟨.over result.1, buffer, result.2.1.outbox, result.2.2⟩ := by
  intro result
  refine ⟨?_, serve_passes limit handler inlet sink state⟩
  intro met moment hmet hpasses
  have hsize : 0 < readSize := by decide
  have hopening : (Moment.opening sink state).Bounded limit :=
    ⟨Nat.add_pos_right _ hsize, nofun, nofun⟩
  have hevents : ∀ event ∈ met, event.octets.length ≤ readSize := by
    intro event hevent
    rcases List.mem_append.mp (hmet.subset hevent) with hread | hend
    · exact length_octets_of_mem_reads inlet event hread
    · obtain rfl := List.mem_singleton.mp hend
      exact Nat.zero_le readSize
  have hbound := hpasses.bounded hopening hevents
  exact ⟨hbound.always, hbound.reading⟩

/-- The longest body that a header can announce is refused at once, with no more than the header held. -/
theorem buffer_bounded_huge_announcement :
    let header := Header.encode { magic := 0x80, totalBody := 0xffffffff }
    let handler : Handler Unit := fun _ state => (.ok .silent, state)
    let flushed : Outbox := { sink := { flushed := 1 } }
    let refused : Moment Unit :=
      ⟨.over (.error (.framing (.bodyTooLong 4294967295 10))), header, flushed, ()⟩
    [.data header] <+: reads [.data header] ++ [.data []] ∧
      Passes 10 handler (.opening {} ()) [.data header] refused ∧
      refused.buffer.length < Header.size + 10 + readSize := by
  intro header handler flushed refused
  have hstarved : Frame.cut 10 [] = (.ok none, []) := Frame.cut_short (by decide)
  have hrefused : Frame.cut 10 header = (.error (.framing (.bodyTooLong 4294967295 10)), header) :=
    Frame.refused_iff.mpr ⟨_, [], (List.append_nil _).symm, by decide, rfl⟩
  have hwhole : portions readSize header = [header] := by rw [portions, if_neg (by decide)]
  have hread : reads [.data header] = [.data header] := by
    rw [reads, List.flatMap_singleton]
    simp only [hwhole, List.map_cons, List.map_nil]
  have hmet : [.data header] <+: reads [.data header] ++ [.data []] := by
    rw [hread]
    exact List.prefix_append _ _
  have hwaits : Passes 10 handler (.opening {} ()) [] ⟨.reading, [], flushed, ()⟩ :=
    (Passes.here.step (.starve hstarved)).step (.flush rfl)
  have hpasses : Passes 10 handler (.opening {} ()) [.data header] refused :=
    (hwaits.step (.arrive (by decide))).step (.violate hrefused)
  obtain ⟨hbound, -⟩ := buffer_bounded 10 handler [.data header] {} ()
  exact ⟨hmet, hpasses, (hbound _ refused hmet hpasses).1⟩

end Loop

end Session

end ShardedCache
