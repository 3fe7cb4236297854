import ShardedCache.Proofs.Session.Outflow
import ShardedCache.Proofs.Stream.Cutting

namespace ShardedCache

theorem WriteEvent.pushAll_ok_iff (stuck : IoError) (script : List WriteEvent) (bs : Octets) :
    (pushAll stuck script bs).2.1 = .ok () ↔ (pushAll stuck script bs).1 = bs := by
  constructor
  · intro hok
    exact accepted_of_pushAll_ok (Prod.ext rfl (Prod.ext hok rfl))
  · -- A write that fails was offered at least one octet that it did not accept.
    induction script, bs using pushAll.induct stuck with
    | case1 script => exact fun _ => by rw [pushAll]
    | case2 bs hne =>
      intro _
      rw [pushAll]
      exact hne
    | case3 error script b bs hkind ih =>
      rw [pushAll, if_pos hkind]
      exact ih
    | case4 error script b bs hkind =>
      rw [pushAll, if_neg hkind]
      intro hall
      cases hall
    | case5 script b bs =>
      rw [pushAll, if_pos rfl]
      intro hall
      cases hall
    | case6 n script b bs hn accepted outcome rest hpush ih =>
      rw [pushAll, if_neg hn, hpush]
      rw [hpush] at ih
      intro hall
      apply ih
      have hwhole : (b :: bs).take n ++ accepted = (b :: bs).take n ++ (b :: bs).drop n := by
        rw [List.take_append_drop]
        exact hall
      exact List.append_cancel_left hwhole

/-- A packet that can be sent and read back: it is whole, and not too long to be accepted. -/
structure Packet.Sendable (p : Packet) : Prop where
  complete : p.Complete
  within : p.header.totalBody.toNat ≤ Frame.defaultLimit

namespace Sink

def writePackets : List Packet → Sink → Except Fault Unit × Sink
  | [], sink => (.ok (), sink)
  | p :: packets, sink =>
    match sink.writePacket p with
    | (.error fault, sink) => (.error fault, sink)
    | (.ok (), sink) => writePackets packets sink

theorem flush_of_flushes (sink other : Sink) (h : sink.flushes = other.flushes) :
    sink.flush.1 = other.flush.1 ∧ sink.flush.2.sent = sink.sent ∧ sink.flush.2.flushed = sink.flushed + 1 := by
  rw [flush, flush, h]
  split <;> exact ⟨rfl, rfl, rfl⟩

/-- What came of writing one packet, of which the sink accepted these octets. -/
structure Wrote (p : Packet) (before : Sink) (outcome : Except Fault Unit) (after : Sink) (accepted : Octets) :
    Prop where
  front : accepted <+: p.encode
  sent : after.sent = before.sent ++ accepted
  /-- The flush is the next one of the sink, since no other comes between. -/
  ok_iff : outcome = .ok () ↔ accepted = p.encode ∧ before.flush.1 = .ok ()
  flushed : after.flushed = if accepted = p.encode then before.flushed + 1 else before.flushed

theorem writePacket_wrote (p : Packet) (sink : Sink) :
    ∃ accepted, Wrote p sink (sink.writePacket p).1 (sink.writePacket p).2 accepted := by
  obtain ⟨-, -, hfront, -⟩ := WriteEvent.pushAll_cases .shortWrite sink.writes p.encode
  have hwhole := WriteEvent.pushAll_ok_iff .shortWrite sink.writes p.encode
  rcases hpush : WriteEvent.pushAll .shortWrite sink.writes p.encode with ⟨accepted, error | _, script⟩
  · rw [hpush] at hfront hwhole
    have hpart : accepted ≠ p.encode := by
      intro hall
      cases hwhole.mpr hall
    simp only [writePacket, writeAll, hpush]
    refine ⟨accepted, hfront, rfl, ?_, (if_neg hpart).symm⟩
    constructor
    · intro hok
      cases hok
    · rintro ⟨hall, -⟩
      exact absurd hall hpart
  · rw [hpush] at hwhole
    obtain rfl := hwhole.mp rfl
    let between : Sink := { sink with writes := script, sent := sink.sent ++ p.encode }
    obtain ⟨houtcome, hsent, hflushed⟩ := flush_of_flushes between sink rfl
    simp only [writePacket, writeAll, hpush]
    refine ⟨p.encode, List.prefix_rfl, hsent, ?_, ?_⟩
    · rw [houtcome]
      cases sink.flush.1 with
      | ok _ => exact iff_of_true rfl ⟨rfl, rfl⟩
      | error error =>
        apply iff_of_false
        · intro hok
          cases hok
        · rintro ⟨-, hok⟩
          cases hok
    · rw [if_pos rfl]
      exact hflushed

theorem writePacket_of_open (p : Packet) {sink : Sink} (h : sink.Open) :
    ∃ after, sink.writePacket p = (.ok (), after) ∧ after.Open ∧ after.sent = sink.sent ++ p.encode ∧
      after.flushed = sink.flushed + 1 := by
  obtain ⟨script, hpush, hscript⟩ := WriteEvent.pushAll_of_flows .shortWrite p.encode h.writes
  let between : Sink := { sink with writes := script, sent := sink.sent ++ p.encode }
  have hbetween : between.Open := ⟨hscript, h.flushes⟩
  obtain ⟨hok, hafter, hsent⟩ := between.flush_of_open hbetween
  obtain ⟨-, -, hflushed⟩ := flush_of_flushes between sink rfl
  refine ⟨between.flush.2, ?_, hafter, hsent, hflushed⟩
  simp only [writePacket, writeAll, hpush]
  rw [hok]
  rfl

/-- Packets that are written to an open sink all get through, in order, each with a flush of its own. -/
theorem writePackets_of_open (packets : List Packet) {sink : Sink} (h : sink.Open) :
    ∃ after, sink.writePackets packets = (.ok (), after) ∧ after.Open ∧
      after.sent = sink.sent ++ packets.flatMap Packet.encode ∧
      after.flushed = sink.flushed + packets.length := by
  induction packets generalizing sink with
  | nil => exact ⟨sink, rfl, h, (List.append_nil _).symm, rfl⟩
  | cons p packets ih =>
    obtain ⟨between, hwrite, hbetween, hsent, hflushed⟩ := writePacket_of_open p h
    obtain ⟨after, hwrites, hafter, hlater, hmore⟩ := ih hbetween
    refine ⟨after, ?_, hafter, ?_, ?_⟩
    · rw [writePackets, hwrite]
      exact hwrites
    · rw [hlater, hsent, List.flatMap_cons, List.append_assoc]
    · rw [hmore, hflushed, List.length_cons]
      omega

end Sink

namespace Inlet

variable {inlet : Inlet} {more : Octets}

def readPackets : Nat → Inlet → Except Fault (List Packet) × Inlet
  | 0, inlet => (.ok [], inlet)
  | n + 1, inlet =>
    match inlet.readPacket with
    | (.error fault, rest) => (.error fault, rest)
    | (.ok p, rest) =>
      let (packets, rest) := readPackets n rest
      (packets.map (p :: ·), rest)

theorem readPacket_of_presents {p : Packet} (hp : p.Sendable) (h : inlet.Presents (p.encode ++ more)) :
    ∃ rest, inlet.readPacket = (.ok p, rest) ∧ rest.Presents more := by
  obtain ⟨rest, hread, hrest⟩ := readFrame_of_presents hp.complete hp.within h
  refine ⟨rest, ?_, hrest⟩
  have hdecode : Header.decode p.encode = (.ok p.header, p.body) := Header.decode_encode p.header p.body
  simp only [readPacket, hread, hdecode]

theorem front_of_readPacket {rest : Inlet} {p : Packet} (h : inlet.readPacket = (.ok p, rest)) :
    p.Sendable ∧ p.encode <+: inlet.arriving := by
  match hread : readFrame Frame.defaultLimit inlet with
  | (.error fault, left) => simp [readPacket, hread] at h
  | (.ok frame, left) =>
    obtain ⟨read, hcomplete, hlimit, rfl, harrive⟩ := arriving_of_readFrame hread
    have hdecode : Header.decode read.encode = (.ok read.header, read.body) :=
      Header.decode_encode read.header read.body
    simp only [readPacket, hread, hdecode, Prod.mk.injEq, Except.ok.injEq] at h
    obtain ⟨rfl, -⟩ := h
    exact ⟨⟨hcomplete, hlimit⟩, harrive ▸ List.prefix_append ..⟩

theorem readPacket_of_end (h : inlet.Presents []) : inlet.readPacket = (.error (.io .shortRead), []) := by
  have hread : readFrame Frame.defaultLimit inlet = (.error (.io .shortRead), []) :=
    readFrame_of_short h (by decide)
  rw [readPacket, hread]

theorem readPackets_of_presents {packets : List Packet} (hpackets : ∀ p ∈ packets, p.Sendable)
    (h : inlet.Presents (packets.flatMap Packet.encode ++ more)) :
    ∃ rest, inlet.readPackets packets.length = (.ok packets, rest) ∧ rest.Presents more := by
  induction packets generalizing inlet with
  | nil => exact ⟨inlet, rfl, h⟩
  | cons p packets ih =>
    rw [List.flatMap_cons, List.append_assoc] at h
    obtain ⟨between, hread, hbetween⟩ := readPacket_of_presents (hpackets p List.mem_cons_self) h
    have hothers : ∀ other ∈ packets, other.Sendable := fun other hother =>
      hpackets other (List.mem_cons_of_mem _ hother)
    obtain ⟨rest, hreads, hrest⟩ := ih hothers hbetween
    refine ⟨rest, ?_, hrest⟩
    rw [List.length_cons, readPackets, hread]
    simp only [hreads]
    rfl

end Inlet

/-- Writing packets and reading them are inverse to each other.

* Packets of either direction that are whole and not too long all get through an open sink, each with one flush.  From
  any stream that brings what was written they are read back in order, and one more read finds the end of the stream.
* Of a packet that is written to any sink a front is accepted.  All is well exactly if that is the whole packet and the
  flush succeeds, and the sink is flushed exactly if it is the whole packet. -/
theorem packets_there_and_back :
    (∀ (packets : List Packet) (sink : Sink), (∀ p ∈ packets, p.Sendable) → sink.Open →
      (∃ after, sink.writePackets packets = (.ok (), after) ∧
        after.sent = sink.sent ++ packets.flatMap Packet.encode ∧
        after.flushed = sink.flushed + packets.length) ∧
      ∀ inlet : Inlet, inlet.Presents (packets.flatMap Packet.encode) →
        ∃ rest, inlet.readPackets packets.length = (.ok packets, rest) ∧
          ∃ error, rest.readPacket.1 = .error (.io error) ∧ error.kind = .unexpectedEnd) ∧
      ∀ (p : Packet) (sink : Sink),
        ∃ accepted, Sink.Wrote p sink (sink.writePacket p).1 (sink.writePacket p).2 accepted := by
  refine ⟨?_, Sink.writePacket_wrote⟩
  intro packets sink hpackets hopen
  obtain ⟨after, hwrites, -, hsent, hflushed⟩ := Sink.writePackets_of_open packets hopen
  refine ⟨⟨after, hwrites, hsent, hflushed⟩, ?_⟩
  intro inlet hinlet
  rw [← List.append_nil (packets.flatMap Packet.encode)] at hinlet
  obtain ⟨rest, hreads, hrest⟩ := Inlet.readPackets_of_presents hpackets hinlet
  refine ⟨rest, hreads, .shortRead, ?_, rfl⟩
  rw [Inlet.readPacket_of_end hrest]

/-- A lookup and a response, written to a sink that takes a few octets at a time and is interrupted, and read from two
chunks of which the first ends within the response. -/
theorem packets_there_and_back_broken_pieces :
    let packets : List Packet :=
      [⟨{ magic := 0x80, keyLength := 1, totalBody := 1 }, [107]⟩, ⟨{ magic := 0x81 }, []⟩]
    let sink : Sink := { writes := [.take 5, .fail ⟨.interrupted, ""⟩, .take 1], flushes := [none] }
    let written := packets.flatMap Packet.encode
    let inlet : Inlet := [.data (written.take 30), .fail ⟨.interrupted, ""⟩, .data (written.drop 30)]
    (∀ p ∈ packets, p.Sendable) ∧ sink.Open ∧ inlet.Presents written ∧
      (∃ after, sink.writePackets packets = (.ok (), after) ∧ after.sent = written ∧ after.flushed = 2) ∧
      ∃ rest, inlet.readPackets 2 = (.ok packets, rest) ∧
        ∃ error, rest.readPacket.1 = .error (.io error) ∧ error.kind = .unexpectedEnd := by
  intro packets sink written inlet
  have hpackets : ∀ p ∈ packets, p.Sendable := by
    intro p hp
    rcases List.mem_cons.mp hp with rfl | hp
    · exact ⟨rfl, by decide⟩
    · obtain rfl := List.mem_singleton.mp hp
      exact ⟨rfl, by decide⟩
  have hopen : sink.Open := ⟨by decide, by decide⟩
  have hinlet : inlet.Presents written := ⟨by decide, by decide⟩
  obtain ⟨hwrite, hread⟩ := packets_there_and_back.1 packets sink hpackets hopen
  exact ⟨hpackets, hopen, hinlet, hwrite, hread inlet hinlet⟩

end ShardedCache
