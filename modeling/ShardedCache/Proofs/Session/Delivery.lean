import ShardedCache.Session

namespace ShardedCache

namespace WriteEvent

/-- The event takes octets, or is an interruption that a write gets over. -/
def flows : WriteEvent → Bool
  | .take n => 0 < n
  | .fail error => error.kind = .interrupted

theorem pushAll_of_flows (stuck : IoError) {script : List WriteEvent} (bs : Octets)
    (h : ∀ event ∈ script, event.flows) :
    ∃ rest, pushAll stuck script bs = (bs, .ok (), rest) ∧ ∀ event ∈ rest, event.flows := by
  induction script, bs using pushAll.induct stuck with
  | case1 script => exact ⟨script, by rw [pushAll], h⟩
  | case2 bs hne => exact ⟨[], by rw [pushAll]; exact hne, h⟩
  | case3 error script b bs hkind ih =>
    rw [pushAll, if_pos hkind]
    exact ih fun event he => h event (List.mem_cons_of_mem _ he)
  | case4 error script b bs hkind =>
    have hevent := h (.fail error) List.mem_cons_self
    simp [flows, hkind] at hevent
  | case5 script b bs =>
    have hevent := h (.take 0) List.mem_cons_self
    simp [flows] at hevent
  | case6 n script b bs hn _ _ _ _ ih =>
    obtain ⟨rest, hpush, hrest⟩ := ih fun event he => h event (List.mem_cons_of_mem _ he)
    refine ⟨rest, ?_, hrest⟩
    rw [pushAll, if_neg hn, hpush]
    simp only [List.take_append_drop]

theorem accepted_of_pushAll_ok {stuck : IoError} {script rest : List WriteEvent} {bs accepted : Octets}
    (h : pushAll stuck script bs = (accepted, .ok (), rest)) : accepted = bs := by
  induction script, bs using pushAll.induct stuck generalizing accepted rest with
  | case1 script =>
    rw [pushAll] at h
    exact (Prod.mk.inj h).1.symm
  | case2 bs hne =>
    rw [pushAll] at h
    · exact (Prod.mk.inj h).1.symm
    · exact hne
  | case3 error script b bs hkind ih =>
    rw [pushAll, if_pos hkind] at h
    exact ih h
  | case4 error script b bs hkind => simp [pushAll, hkind] at h
  | case5 script b bs => simp [pushAll] at h
  | case6 n script b bs hn tail outcome left hpush ih =>
    rw [pushAll, if_neg hn, hpush] at h
    simp only [Prod.mk.injEq] at h
    obtain ⟨rfl, rfl, -⟩ := h
    rw [ih hpush, List.take_append_drop]

end WriteEvent

/-- No write to the sink and no flush of it fails for good. -/
structure Sink.Open (sink : Sink) : Prop where
  writes : ∀ event ∈ sink.writes, event.flows
  flushes : ∀ outcome ∈ sink.flushes, outcome = none

theorem Sink.flush_of_open (sink : Sink) (h : sink.Open) :
    sink.flush.1 = .ok () ∧ sink.flush.2.Open ∧ sink.flush.2.sent = sink.sent := by
  have htail : ∀ outcome ∈ sink.flushes.tail, outcome = none := fun outcome ho =>
    h.flushes outcome (List.mem_of_mem_tail ho)
  match hf : sink.flushes with
  | [] =>
    simp only [Sink.flush, hf, List.tail_nil, and_true, true_and]
    exact ⟨h.writes, by simp⟩
  | none :: rest =>
    simp only [Sink.flush, hf, List.tail_cons, and_true, true_and]
    exact ⟨h.writes, by rwa [hf] at htail⟩
  | some error :: rest => cases h.flushes (some error) (by rw [hf]; exact List.mem_cons_self)

namespace Outbox

/-- All that was put into the box, whether it waits or went out. -/
def wire (box : Outbox) : Octets :=
  box.sink.sent ++ box.queued

theorem passOn_of_open {box : Outbox} (h : box.sink.Open) :
    ∃ sink, box.passOn = (.ok (), { sink, queued := [] }) ∧ sink.Open ∧ sink.sent = box.wire := by
  obtain ⟨rest, hpush, hrest⟩ := WriteEvent.pushAll_of_flows .stuckBuffer box.queued h.writes
  refine ⟨{ box.sink with writes := rest, sent := box.wire }, ?_, ⟨hrest, h.flushes⟩, rfl⟩
  simp only [passOn, hpush, wire, List.drop_length]

theorem put_of_open {box : Outbox} (bs : Octets) (h : box.sink.Open) :
    ∃ after, box.put bs = (.ok (), after) ∧ after.sink.Open ∧ after.wire = box.wire ++ bs := by
  obtain ⟨sink, hpass, hopen, hsent⟩ := passOn_of_open h
  have hdirect (box : Outbox) (h : box.sink.Open) (hqueued : capacity ≤ bs.length → box.queued = []) :
      ∃ after,
        (if capacity ≤ bs.length then
            ((box.sink.writeAll .shortWrite bs).1,
              { box with sink := (box.sink.writeAll .shortWrite bs).2 })
          else (.ok (), { box with queued := box.queued ++ bs })) = (.ok (), after) ∧
        after.sink.Open ∧ after.wire = box.wire ++ bs := by
    split
    · rename_i hlarge
      obtain ⟨rest, hpush, hrest⟩ := WriteEvent.pushAll_of_flows .shortWrite bs h.writes
      refine ⟨{ box with sink := (box.sink.writeAll .shortWrite bs).2 }, ?_, ?_, ?_⟩
      · simp only [Sink.writeAll, hpush]
      · simp only [Sink.writeAll, hpush]
        exact ⟨hrest, h.flushes⟩
      · simp only [Sink.writeAll, hpush, wire, hqueued hlarge, List.append_nil]
    · exact ⟨_, rfl, h, by simp only [wire, List.append_assoc]⟩
  rw [put]
  by_cases hroom : bs.length < capacity - box.queued.length
  · rw [if_pos hroom]
    exact ⟨_, rfl, h, by simp only [wire, List.append_assoc]⟩
  rw [if_neg hroom]
  by_cases hfull : capacity - box.queued.length < bs.length
  · rw [if_pos hfull, hpass]
    have hwire : box.wire = ({ sink, queued := [] } : Outbox).wire := by
      simp only [wire, hsent, List.append_nil]
    rw [hwire]
    exact hdirect { sink, queued := [] } hopen fun _ => rfl
  · rw [if_neg hfull]
    have hpos : 0 < capacity := by decide
    refine hdirect box h fun hlarge => List.length_eq_zero_iff.mp ?_
    omega

theorem flush_of_open {box : Outbox} (h : box.sink.Open) :
    ∃ after, box.flush = (.ok (), after) ∧ after.sink.Open ∧ after.queued = [] ∧
      after.sink.sent = box.wire := by
  obtain ⟨sink, hpass, hopen, hsent⟩ := passOn_of_open h
  obtain ⟨hok, hafter, hkept⟩ := sink.flush_of_open hopen
  refine ⟨{ sink := sink.flush.2, queued := [] }, ?_, hafter, rfl, hkept.trans hsent⟩
  simp only [flush, hpass, hok]

theorem sent_abandon_of_open {box : Outbox} (h : box.sink.Open) :
    box.abandon.sink.sent = box.wire := by
  obtain ⟨sink, hpass, -, hsent⟩ := passOn_of_open h
  rw [abandon, hpass, hsent]

end Outbox

def Reply.octets (reply : Reply) : Octets :=
  reply.bytes?.getD []

theorem Session.perform_of_open (reply : Reply) {box : Outbox} (h : box.sink.Open) :
    ∃ after, perform reply box = (.ok (!reply.closes), after) ∧ after.sink.Open ∧
      after.wire = box.wire ++ reply.octets := by
  have flushed (box : Outbox) (h : box.sink.Open) :
      ∃ after, box.flush = (.ok (), after) ∧ after.sink.Open ∧ after.wire = box.wire := by
    obtain ⟨after, hflush, hopen, hqueued, hsent⟩ := Outbox.flush_of_open h
    exact ⟨after, hflush, hopen, by rw [Outbox.wire, hqueued, hsent, List.append_nil]⟩
  cases reply with
  | silent => exact ⟨box, rfl, h, (List.append_nil _).symm⟩
  | send bytes =>
    obtain ⟨after, hput, hopen, hwire⟩ := Outbox.put_of_open bytes h
    exact ⟨after, by simp only [perform, hput]; rfl, hopen, hwire⟩
  | flush =>
    obtain ⟨after, hflush, hopen, hwire⟩ := flushed box h
    exact ⟨after, by simp only [perform, hflush]; rfl, hopen, by rw [hwire]; exact (List.append_nil _).symm⟩
  | sendAndClose bytes =>
    obtain ⟨between, hput, hbetween, hwire⟩ := Outbox.put_of_open bytes h
    obtain ⟨after, hflush, hopen, hkept⟩ := flushed between hbetween
    exact ⟨after, by simp only [perform, hput, hflush]; rfl, hopen, hkept.trans hwire⟩
  | close =>
    obtain ⟨after, hflush, hopen, hwire⟩ := flushed box h
    exact ⟨after, by simp only [perform, hflush]; rfl, hopen, by rw [hwire]; exact (List.append_nil _).symm⟩

end ShardedCache
