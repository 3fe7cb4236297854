import ShardedCache.Proofs.Session.Delivery

namespace ShardedCache

namespace WriteEvent

/-- A whole write accepts a front of the octets.  It fails only where it meets an event that it cannot get
over. -/
theorem pushAll_cases (stuck : IoError) (script : List WriteEvent) (bs : Octets) :
    ∃ met, script = met ++ (pushAll stuck script bs).2.2 ∧ (pushAll stuck script bs).1 <+: bs ∧
      ∀ error, (pushAll stuck script bs).2.1 = .error error → ∃ event ∈ met, event.flows = false := by
  induction script, bs using pushAll.induct stuck with
  | case1 script =>
    rw [pushAll]
    refine ⟨[], rfl, List.prefix_rfl, ?_⟩
    intro error herror
    cases herror
  | case2 bs hne =>
    rw [pushAll]
    · refine ⟨[], rfl, List.prefix_rfl, ?_⟩
      intro error herror
      cases herror
    · exact hne
  | case3 error script b bs hkind ih =>
    obtain ⟨met, hscript, hfront, hstuck⟩ := ih
    rw [pushAll, if_pos hkind]
    refine ⟨.fail error :: met, by rw [List.cons_append, ← hscript], hfront, ?_⟩
    intro cause hcause
    obtain ⟨event, hevent, hfails⟩ := hstuck cause hcause
    exact ⟨event, List.mem_cons_of_mem _ hevent, hfails⟩
  | case4 error script b bs hkind =>
    rw [pushAll, if_neg hkind]
    refine ⟨[.fail error], rfl, List.nil_prefix, ?_⟩
    intro _ _
    exact ⟨.fail error, List.mem_cons_self, by simp [flows, hkind]⟩
  | case5 script b bs =>
    rw [pushAll, if_pos rfl]
    refine ⟨[.take 0], rfl, List.nil_prefix, ?_⟩
    intro _ _
    exact ⟨.take 0, List.mem_cons_self, rfl⟩
  | case6 n script b bs hn accepted outcome rest hpush ih =>
    obtain ⟨met, hscript, ⟨behind, hfront⟩, hstuck⟩ := ih
    rw [pushAll, if_neg hn, hpush]
    rw [hpush] at hscript hfront hstuck
    refine ⟨.take n :: met, by rw [List.cons_append, ← hscript], ⟨behind, ?_⟩, ?_⟩
    · rw [List.append_assoc, hfront, List.take_append_drop]
    · intro cause hcause
      obtain ⟨event, hevent, hfails⟩ := hstuck cause hcause
      exact ⟨event, List.mem_cons_of_mem _ hevent, hfails⟩

end WriteEvent

namespace Sink

/-- The sink at a later time: its scripts have been met in part. -/
structure Later (before after : Sink) : Prop where
  writes : after.writes <:+ before.writes
  flushes : after.flushes <:+ before.flushes

/-- Between two moments of a sink, a write to it failed for good or a flush of it failed. -/
def Failed (before after : Sink) : Prop :=
  (∃ met, before.writes = met ++ after.writes ∧ ∃ event ∈ met, event.flows = false) ∨
    ∃ met, before.flushes = met ++ after.flushes ∧ ∃ outcome ∈ met, outcome ≠ none

variable {first second third : Sink}

theorem Later.refl (sink : Sink) : sink.Later sink :=
  ⟨List.suffix_rfl, List.suffix_rfl⟩

theorem Later.trans (h : first.Later second) (h' : second.Later third) : first.Later third :=
  ⟨h'.writes.trans h.writes, h'.flushes.trans h.flushes⟩

theorem Failed.later (h : first.Failed second) (h' : second.Later third) : first.Failed third := by
  rcases h with ⟨met, hmet, event, hevent, hstuck⟩ | ⟨met, hmet, outcome, houtcome, hsome⟩
  · obtain ⟨more, hmore⟩ := h'.writes
    refine .inl ⟨met ++ more, ?_, event, List.mem_append_left more hevent, hstuck⟩
    rw [List.append_assoc, hmore, hmet]
  · obtain ⟨more, hmore⟩ := h'.flushes
    refine .inr ⟨met ++ more, ?_, outcome, List.mem_append_left more houtcome, hsome⟩
    rw [List.append_assoc, hmore, hmet]

theorem Later.failed (h : first.Later second) (h' : second.Failed third) : first.Failed third := by
  rcases h' with ⟨met, hmet, event, hevent, hstuck⟩ | ⟨met, hmet, outcome, houtcome, hsome⟩
  · obtain ⟨more, hmore⟩ := h.writes
    refine .inl ⟨more ++ met, ?_, event, List.mem_append_right more hevent, hstuck⟩
    rw [List.append_assoc, ← hmet, hmore]
  · obtain ⟨more, hmore⟩ := h.flushes
    refine .inr ⟨more ++ met, ?_, outcome, List.mem_append_right more houtcome, hsome⟩
    rw [List.append_assoc, ← hmet, hmore]

theorem Open.later (h : first.Open) (hlater : first.Later second) : second.Open where
  writes event hevent := h.writes event (hlater.writes.subset hevent)
  flushes outcome houtcome := h.flushes outcome (hlater.flushes.subset houtcome)

theorem Open.not_failed (h : first.Open) : ¬ first.Failed second := by
  intro hfailed
  rcases hfailed with ⟨met, hmet, event, hevent, hstuck⟩ | ⟨met, hmet, outcome, houtcome, hsome⟩
  · have hflows := h.writes event (by rw [hmet]; exact List.mem_append_left _ hevent)
    rw [hflows] at hstuck
    cases hstuck
  · exact hsome (h.flushes outcome (by rw [hmet]; exact List.mem_append_left _ houtcome))

theorem flush_cases (sink : Sink) :
    sink.Later sink.flush.2 ∧ sink.flush.2.sent = sink.sent ∧
      ∀ error, sink.flush.1 = .error error → sink.Failed sink.flush.2 := by
  have hfine (error : IoError) : ¬ (.ok () : Except IoError Unit) = .error error := by
    intro h
    cases h
  rcases hf : sink.flushes with _ | ⟨_ | cause, rest⟩
  · simp only [flush, hf]
    exact ⟨⟨List.suffix_rfl, List.nil_suffix⟩, trivial, fun error h => absurd h (hfine error)⟩
  · have htail : rest <:+ sink.flushes := by
      rw [hf]
      exact List.suffix_cons none rest
    simp only [flush, hf]
    exact ⟨⟨List.suffix_rfl, htail⟩, trivial, fun error h => absurd h (hfine error)⟩
  · have htail : rest <:+ sink.flushes := by
      rw [hf]
      exact List.suffix_cons (some cause) rest
    simp only [flush, hf]
    refine ⟨⟨List.suffix_rfl, htail⟩, trivial, ?_⟩
    intro _ _
    exact .inr ⟨[some cause], hf, some cause, List.mem_cons_self, Option.some_ne_none cause⟩

end Sink

namespace Outbox

/-- What an operation on a box made of it that was to add octets. -/
structure Moved {β : Type} (box : Outbox) (added : Octets) (outcome : Except IoError β)
    (after : Outbox) : Prop where
  later : box.sink.Later after.sink
  front : after.wire <+: box.wire ++ added
  whole : ∀ value, outcome = .ok value → after.wire = box.wire ++ added
  failed : ∀ error, outcome = .error error → box.sink.Failed after.sink

namespace Moved

variable {β γ : Type} {box between after : Outbox} {added more : Octets} {value : β}
  {outcome : Except IoError β} {next : Except IoError γ}

theorem of_eq (hlater : box.sink.Later after.sink) (hwire : after.wire = box.wire ++ added)
    (hfailed : ∀ error, outcome = .error error → box.sink.Failed after.sink) :
    box.Moved added outcome after :=
  ⟨hlater, hwire ▸ List.prefix_rfl, fun _ _ => hwire, hfailed⟩

theorem trans (h : box.Moved added (.ok value : Except IoError β) between)
    (h' : between.Moved more next after) : box.Moved (added ++ more) next after := by
  have hwire : between.wire = box.wire ++ added := h.whole value rfl
  refine ⟨h.later.trans h'.later, ?_, ?_, ?_⟩
  · rw [← List.append_assoc, ← hwire]
    exact h'.front
  · intro last hlast
    rw [← List.append_assoc, ← hwire]
    exact h'.whole last hlast
  · intro error herror
    exact h.later.failed (h'.failed error herror)

theorem trans_nil (h : box.Moved added (.ok value : Except IoError β) between)
    (h' : between.Moved [] next after) : box.Moved added next after := by
  have hboth := h.trans h'
  rwa [List.append_nil] at hboth

/-- An operation that fails leaves undone what was to come after it. -/
theorem append_of_error {error : IoError} (h : box.Moved added (.error error : Except IoError β) after)
    (more : Octets) : box.Moved (added ++ more) (.error error : Except IoError γ) after := by
  refine ⟨h.later, ?_, nofun, ?_⟩
  · rw [← List.append_assoc]
    exact h.front.trans (List.prefix_append _ more)
  · intro _ _
    exact h.failed error rfl

theorem map (h : box.Moved added outcome after) (f : β → γ) : box.Moved added (outcome.map f) after := by
  cases outcome with
  | ok value => exact ⟨h.later, h.front, fun _ _ => h.whole value rfl, nofun⟩
  | error error => exact ⟨h.later, h.front, nofun, fun _ _ => h.failed error rfl⟩

end Moved

variable (box : Outbox)

theorem moved_passOn :
    box.Moved [] box.passOn.1 box.passOn.2 ∧
      (box.passOn.1 = .ok () → box.passOn.2.queued = []) := by
  obtain ⟨met, hmet, ⟨behind, hfront⟩, hstuck⟩ :=
    WriteEvent.pushAll_cases .stuckBuffer box.sink.writes box.queued
  match hpush : WriteEvent.pushAll .stuckBuffer box.sink.writes box.queued with
  | (accepted, outcome, rest) =>
    rw [hpush] at hmet hfront hstuck
    have hpass : box.passOn =
        (outcome, ⟨{ box.sink with writes := rest, sent := box.sink.sent ++ accepted }, behind⟩) := by
      simp only [passOn, hpush]
      rw [← hfront, List.drop_left]
    rw [hpass]
    constructor
    · apply Moved.of_eq
      · exact ⟨⟨met, hmet.symm⟩, List.suffix_rfl⟩
      · simp only [wire, List.append_nil, List.append_assoc, hfront]
      · intro error herror
        exact .inl ⟨met, hmet, hstuck error herror⟩
    · intro hok
      subst hok
      rw [WriteEvent.accepted_of_pushAll_ok hpush] at hfront
      exact List.append_right_eq_self.mp hfront

theorem moved_flush :
    box.Moved [] box.flush.1 box.flush.2 ∧ (box.flush.1 = .ok () → box.flush.2.queued = []) := by
  obtain ⟨hmoved, hempty⟩ := box.moved_passOn
  rcases hpass : box.passOn with ⟨error | _, between⟩
  · rw [hpass] at hmoved
    simp only [flush, hpass]
    refine ⟨hmoved, ?_⟩
    intro h
    cases h
  · rw [hpass] at hmoved hempty
    obtain ⟨hlater, hsent, hfailed⟩ := between.sink.flush_cases
    have hwire : ({ between with sink := between.sink.flush.2 } : Outbox).wire = between.wire ++ [] := by
      simp only [wire, hsent, List.append_nil]
    simp only [flush, hpass]
    exact ⟨hmoved.trans (.of_eq hlater hwire hfailed), fun _ => hempty rfl⟩

theorem moved_writeAll (bs : Octets) (h : box.queued = []) :
    box.Moved bs (box.sink.writeAll .shortWrite bs).1
      { box with sink := (box.sink.writeAll .shortWrite bs).2 } := by
  obtain ⟨met, hmet, hfront, hstuck⟩ := WriteEvent.pushAll_cases .shortWrite box.sink.writes bs
  match hpush : WriteEvent.pushAll .shortWrite box.sink.writes bs with
  | (accepted, outcome, rest) =>
    rw [hpush] at hmet hfront hstuck
    simp only [Sink.writeAll, hpush]
    refine ⟨⟨⟨met, hmet.symm⟩, List.suffix_rfl⟩, ?_, ?_, ?_⟩
    · simp only [wire, h, List.append_nil]
      exact (List.prefix_append_right_inj box.sink.sent).mpr hfront
    · intro value hok
      subst hok
      rw [WriteEvent.accepted_of_pushAll_ok hpush]
      simp only [wire, h, List.append_nil]
    · intro error herror
      exact .inl ⟨met, hmet, hstuck error herror⟩

theorem moved_put (bs : Octets) : box.Moved bs (box.put bs).1 (box.put bs).2 := by
  have hqueue (box : Outbox) :
      box.Moved bs (.ok () : Except IoError Unit) { box with queued := box.queued ++ bs } := by
    apply Moved.of_eq
    · exact .refl _
    · simp only [wire, List.append_assoc]
    · intro error herror
      cases herror
  have hdirect (box : Outbox) (hqueued : capacity ≤ bs.length → box.queued = []) :
      let result :=
        if capacity ≤ bs.length then
          ((box.sink.writeAll .shortWrite bs).1, { box with sink := (box.sink.writeAll .shortWrite bs).2 })
        else (.ok (), { box with queued := box.queued ++ bs })
      box.Moved bs result.1 result.2 := by
    by_cases hlarge : capacity ≤ bs.length
    · simp only [if_pos hlarge]
      exact box.moved_writeAll bs (hqueued hlarge)
    · simp only [if_neg hlarge]
      exact hqueue box
  rw [put]
  by_cases hroom : bs.length < capacity - box.queued.length
  · rw [if_pos hroom]
    exact hqueue box
  rw [if_neg hroom]
  by_cases hfull : capacity - box.queued.length < bs.length
  · rw [if_pos hfull]
    obtain ⟨hmoved, hempty⟩ := box.moved_passOn
    rcases hpass : box.passOn with ⟨error | _, between⟩
    · rw [hpass] at hmoved
      exact hmoved.append_of_error bs
    · rw [hpass] at hmoved hempty
      exact hmoved.trans (hdirect between fun _ => hempty rfl)
  · rw [if_neg hfull]
    apply hdirect box
    intro hlarge
    have hpos : 0 < capacity := by decide
    apply List.length_eq_zero_iff.mp
    omega

theorem sent_abandon_prefix : box.abandon.sink.sent <+: box.wire := by
  have hfront := box.moved_passOn.1.front
  rw [List.append_nil] at hfront
  exact (List.prefix_append _ _).trans hfront

theorem sent_prefix_wire : box.sink.sent <+: box.wire :=
  List.prefix_append _ _

theorem sent_eq_wire (h : box.queued = []) : box.sink.sent = box.wire := by
  rw [wire, h, List.append_nil]

end Outbox

/-- Doing what a reply says adds its octets.  A reply that closes leaves nothing waiting. -/
theorem Session.moved_perform (reply : Reply) (box : Outbox) :
    box.Moved reply.octets (perform reply box).1 (perform reply box).2 ∧
      ∀ goesOn, (perform reply box).1 = .ok goesOn →
        goesOn = !reply.closes ∧ (reply.closes = true → (perform reply box).2.queued = []) := by
  have hok {β : Type} {outcome : Except IoError Unit} {value last : β}
      (h : outcome.map (fun _ => value) = .ok last) : outcome = .ok () ∧ last = value := by
    cases outcome with
    | ok _ => exact ⟨rfl, (Except.ok.inj h).symm⟩
    | error error => cases h
  have hflush (box : Outbox) := box.moved_flush
  cases reply with
  | silent =>
    have hfine (error : IoError) : ¬ (.ok true : Except IoError Bool) = .error error := by
      intro h
      cases h
    refine ⟨.of_eq (.refl _) (List.append_nil _).symm fun error h => absurd h (hfine error), ?_⟩
    intro goesOn h
    exact ⟨(Except.ok.inj h).symm, fun hcloses => absurd hcloses Bool.false_ne_true⟩
  | send bytes =>
    refine ⟨(box.moved_put bytes).map _, ?_⟩
    intro goesOn h
    exact ⟨(hok h).2, fun hcloses => absurd hcloses Bool.false_ne_true⟩
  | flush =>
    refine ⟨(hflush box).1.map _, ?_⟩
    intro goesOn h
    exact ⟨(hok h).2, fun hcloses => absurd hcloses Bool.false_ne_true⟩
  | close =>
    refine ⟨(hflush box).1.map _, ?_⟩
    intro goesOn h
    exact ⟨(hok h).2, fun _ => (hflush box).2 (hok h).1⟩
  | sendAndClose bytes =>
    have hput := box.moved_put bytes
    rcases hbox : box.put bytes with ⟨error | _, between⟩
    · rw [hbox] at hput
      simp only [perform, hbox]
      refine ⟨⟨hput.later, hput.front, ?_, fun _ _ => hput.failed error rfl⟩, ?_⟩ <;>
        intro _ h <;> cases h
    · rw [hbox] at hput
      simp only [perform, hbox]
      refine ⟨hput.trans_nil ((hflush between).1.map fun _ => false), ?_⟩
      intro goesOn h
      exact ⟨(hok h).2, fun _ => (hflush between).2 (hok h).1⟩

end ShardedCache
