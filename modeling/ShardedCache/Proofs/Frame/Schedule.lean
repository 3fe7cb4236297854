import ShardedCache.Proofs.Session.Transcript

/-! Octets arrive in pieces, and cuts are attempted at any time in between.  However the two are mixed, each request
comes out at an attempt after its last octet arrived, and every other attempt leaves the buffer alone. -/

namespace ShardedCache.Frame

theorem cut_of_append {limit : Nat} {buffer more rest : Octets}
    (h : cut limit (buffer ++ more) = (.ok none, rest)) : cut limit buffer = (.ok none, buffer) := by
  match hcut : cut limit buffer with
  | (.ok none, left) => rw [snd_cut_of_none hcut]
  | (.ok (some p), left) =>
    have hlonger := cut_append_of_packet more hcut
    rw [h] at hlonger
    cases hlonger
  | (.error fault, left) =>
    obtain ⟨after, hlonger⟩ := cut_append_of_error more hcut
    rw [h] at hlonger
    cases hlonger

theorem cut_of_front {limit : Nat} {p : Packet} (hp : p.Assembled limit) {buffer more rest : Octets}
    (h : buffer ++ more = p.encode ++ rest) :
    (∃ left, buffer = p.encode ++ left ∧ cut limit buffer = (.ok (some p), left)) ∨
      cut limit buffer = (.ok none, buffer) := by
  have hlonger : cut limit (buffer ++ more) = (.ok (some p), rest) := cut_eq_packet_iff.mpr ⟨h, hp⟩
  match hcut : cut limit buffer with
  | (.ok none, left) =>
    right
    rw [snd_cut_of_none hcut]
  | (.ok (some q), left) =>
    left
    have hmore := cut_append_of_packet more hcut
    rw [hlonger] at hmore
    have hsame : p = q := by
      apply Option.some.inj
      apply Except.ok.inj
      exact (Prod.mk.inj hmore).1
    subst hsame
    exact ⟨left, (cut_eq_packet_iff.mp hcut).1, rfl⟩
  | (.error fault, left) =>
    obtain ⟨after, hmore⟩ := cut_append_of_error more hcut
    rw [hlonger] at hmore
    cases hmore

inductive Stroke where
  | feed (piece : Octets)
  | cut

def Stroke.octets : Stroke → Octets
  | .feed piece => piece
  | .cut => []

structure Attempt where
  arrived : Octets
  before : Octets
  answer : Except Fault (Option Packet)
  after : Octets

def Attempt.given? (attempt : Attempt) : Option Packet :=
  match attempt.answer with
  | .ok given => given
  | .error _ => none

/-- A request is given once its last octet has arrived, all those before it having been given; otherwise the
attempt gives nothing and the buffer stays. -/
def Attempt.Timely (earlier : List Attempt) (attempt : Attempt) : Prop :=
  match attempt.answer with
  | .ok (some p) =>
    attempt.before = p.encode ++ attempt.after ∧
      (earlier.filterMap Attempt.given? ++ [p]).flatMap Packet.encode <+: attempt.arrived
  | .ok none => attempt.after = attempt.before
  | .error _ => False

structure Intake where
  arrived : Octets := []
  buffer : Octets := []
  attempts : List Attempt := []

namespace Intake

variable {limit : Nat} {packets : List Packet} {tail future : Octets} {intake : Intake}

def given (intake : Intake) : List Packet :=
  intake.attempts.filterMap Attempt.given?

def feed (intake : Intake) (piece : Octets) : Intake :=
  { intake with arrived := intake.arrived ++ piece, buffer := intake.buffer ++ piece }

def attempt (limit : Nat) (intake : Intake) : Intake :=
  let (answer, rest) := Frame.cut limit intake.buffer
  { intake with
    buffer := rest
    attempts := intake.attempts ++
      [{ arrived := intake.arrived, before := intake.buffer, answer := answer, after := rest }] }

def play (limit : Nat) (intake : Intake) : Stroke → Intake
  | .feed piece => intake.feed piece
  | .cut => intake.attempt limit

def run (limit : Nat) (strokes : List Stroke) (intake : Intake) : Intake :=
  strokes.foldl (play limit) intake

/-- Cuts until an attempt gives nothing. -/
def settle (limit : Nat) (intake : Intake) : Intake :=
  match _h : Frame.cut limit intake.buffer with
  | (.ok (some _), _) => settle limit (intake.attempt limit)
  | _ => intake.attempt limit
termination_by intake.buffer.length
decreasing_by
  simp only [attempt, _h]
  exact length_snd_cut_lt _h

theorem attempt_of_cut {answer : Except Fault (Option Packet)} {rest : Octets}
    (h : Frame.cut limit intake.buffer = (answer, rest)) :
    intake.attempt limit =
      { intake with
        buffer := rest
        attempts := intake.attempts ++
          [{ arrived := intake.arrived, before := intake.buffer, answer := answer, after := rest }] } := by
  simp only [attempt, h]

theorem settle_of_packet {p : Packet} {rest : Octets}
    (h : Frame.cut limit intake.buffer = (.ok (some p), rest)) :
    intake.settle limit = (intake.attempt limit).settle limit := by
  rw [settle]
  split
  · rfl
  · rename_i hother
    exact absurd h (hother p rest)

theorem settle_of_none {rest : Octets} (h : Frame.cut limit intake.buffer = (.ok none, rest)) :
    intake.settle limit = intake.attempt limit := by
  rw [settle]
  split
  · rename_i heq
    rw [h] at heq
    cases heq
  · rfl

/-- An intake at which `packets` and then `tail` arrive, `future` being what is still to come: what it gave is the
front of `packets`, and what it holds and what is to come are the others and the tail. -/
structure Keeps (limit : Nat) (packets : List Packet) (tail future : Octets) (intake : Intake) : Prop where
  split : ∃ left, packets = intake.given ++ left ∧
    intake.buffer ++ future = left.flatMap Packet.encode ++ tail
  arrived : intake.arrived = intake.given.flatMap Packet.encode ++ intake.buffer
  timely : ∀ earlier attempt later, intake.attempts = earlier ++ attempt :: later → attempt.Timely earlier

namespace Keeps

theorem feed {piece : Octets} (h : Keeps limit packets tail (piece ++ future) intake) :
    Keeps limit packets tail future (intake.feed piece) := by
  obtain ⟨left, hpackets, hbuffer⟩ := h.split
  refine ⟨⟨left, hpackets, ?_⟩, ?_, h.timely⟩
  · rw [← hbuffer]
    exact List.append_assoc ..
  · have harrived := h.arrived
    calc intake.arrived ++ piece = intake.given.flatMap Packet.encode ++ intake.buffer ++ piece := by
          rw [harrived]
      _ = intake.given.flatMap Packet.encode ++ (intake.buffer ++ piece) := List.append_assoc ..

theorem timely_append {attempts : List Attempt} {new : Attempt}
    (h : ∀ earlier attempt later, attempts = earlier ++ attempt :: later → attempt.Timely earlier)
    (hnew : new.Timely attempts) (earlier : List Attempt) (attempt : Attempt) (later : List Attempt)
    (hsplit : attempts ++ [new] = earlier ++ attempt :: later) : attempt.Timely earlier := by
  rcases List.eq_nil_or_concat later with rfl | ⟨others, last, rfl⟩
  · obtain ⟨rfl, hlast⟩ := List.append_inj' hsplit rfl
    obtain rfl := List.singleton_inj.mp hlast
    exact hnew
  · have hothers : attempts ++ [new] = (earlier ++ attempt :: others) ++ [last] := by
      rw [hsplit]
      simp
    obtain ⟨hfront, -⟩ := List.append_inj' hothers rfl
    exact h earlier attempt others hfront

theorem of_packet (h : Keeps limit packets tail future intake) {p : Packet} {left : List Packet}
    {rest : Octets} (hpackets : packets = intake.given ++ p :: left)
    (hbuffer : intake.buffer ++ future = (p :: left).flatMap Packet.encode ++ tail)
    (hfront : intake.buffer = p.encode ++ rest)
    (hcut : Frame.cut limit intake.buffer = (.ok (some p), rest)) :
    Keeps limit packets tail future (intake.attempt limit) := by
  have hgiven : (intake.attempt limit).given = intake.given ++ [p] := by
    rw [attempt_of_cut hcut, given, List.filterMap_append]
    rfl
  have harrived : intake.arrived = (intake.given ++ [p]).flatMap Packet.encode ++ rest := by
    rw [h.arrived, hfront, List.flatMap_append, List.flatMap_singleton, List.append_assoc]
  refine ⟨⟨left, ?_, ?_⟩, ?_, ?_⟩
  · rw [hgiven, hpackets, List.append_assoc, List.singleton_append]
  · rw [attempt_of_cut hcut]
    rw [hfront, List.flatMap_cons, List.append_assoc, List.append_assoc] at hbuffer
    exact List.append_cancel_left hbuffer
  · rw [hgiven, attempt_of_cut hcut]
    exact harrived
  · rw [attempt_of_cut hcut]
    apply timely_append h.timely
    refine ⟨hfront, rest, ?_⟩
    exact harrived.symm

theorem of_none (h : Keeps limit packets tail future intake)
    (hcut : Frame.cut limit intake.buffer = (.ok none, intake.buffer)) :
    Keeps limit packets tail future (intake.attempt limit) := by
  have hgiven : (intake.attempt limit).given = intake.given := by
    rw [attempt_of_cut hcut, given, List.filterMap_append]
    exact List.append_nil _
  refine ⟨?_, ?_, ?_⟩
  · rw [hgiven, attempt_of_cut hcut]
    exact h.split
  · rw [hgiven, attempt_of_cut hcut]
    exact h.arrived
  · rw [attempt_of_cut hcut]
    exact timely_append h.timely rfl

/-- An attempt gives the next request or nothing, and nothing only if something is still to come or no request
is left. -/
theorem attempt_cases (h : Keeps limit packets tail future intake)
    (hpackets : ∀ p ∈ packets, p.Assembled limit) (htail : Stops limit tail (.incomplete tail)) :
    (∃ p rest, Frame.cut limit intake.buffer = (.ok (some p), rest) ∧
        Keeps limit packets tail future (intake.attempt limit)) ∨
      Frame.cut limit intake.buffer = (.ok none, intake.buffer) ∧
        Keeps limit packets tail future (intake.attempt limit) ∧
        (future = [] → intake.given = packets ∧ intake.buffer = tail) := by
  obtain ⟨left, hleft, hbuffer⟩ := h.split
  cases left with
  | nil =>
    have hnone : Frame.cut limit (intake.buffer ++ future) = (.ok none, intake.buffer ++ future) := by
      have hstop := stops_iff.mp htail
      rw [List.flatMap_nil, List.nil_append] at hbuffer
      rw [← hbuffer] at hstop
      match hcut : Frame.cut limit (intake.buffer ++ future) with
      | (.ok none, _) => rw [snd_cut_of_none hcut]
      | (.ok (some _), _) => simp [cutAll_of_packet hcut] at hstop
      | (.error _, _) => simp [cutAll_of_error hcut] at hstop
    have hcut := cut_of_append hnone
    refine .inr ⟨hcut, h.of_none hcut, ?_⟩
    rintro rfl
    constructor
    · rw [hleft, List.append_nil]
    · simpa using hbuffer
  | cons p left =>
    have hp : p.Assembled limit := by
      apply hpackets
      rw [hleft]
      exact List.mem_append_right _ List.mem_cons_self
    have hfront : intake.buffer ++ future = p.encode ++ (left.flatMap Packet.encode ++ tail) := by
      rw [hbuffer, List.flatMap_cons, List.append_assoc]
    rcases cut_of_front hp hfront with ⟨rest, hwhole, hcut⟩ | hcut
    · exact .inl ⟨p, rest, hcut, h.of_packet hleft hbuffer hwhole hcut⟩
    · refine .inr ⟨hcut, h.of_none hcut, ?_⟩
      rintro rfl
      rw [List.append_nil] at hfront
      rw [cut_eq_packet_iff.mpr ⟨hfront, hp⟩] at hcut
      cases hcut

theorem play {stroke : Stroke} (h : Keeps limit packets tail (stroke.octets ++ future) intake)
    (hpackets : ∀ p ∈ packets, p.Assembled limit) (htail : Stops limit tail (.incomplete tail)) :
    Keeps limit packets tail future (intake.play limit stroke) := by
  cases stroke with
  | feed piece => exact h.feed
  | cut =>
    rcases h.attempt_cases hpackets htail with ⟨_, _, _, hafter⟩ | ⟨_, hafter, _⟩
    · exact hafter
    · exact hafter

theorem run {strokes : List Stroke}
    (h : Keeps limit packets tail (strokes.flatMap Stroke.octets ++ future) intake)
    (hpackets : ∀ p ∈ packets, p.Assembled limit) (htail : Stops limit tail (.incomplete tail)) :
    Keeps limit packets tail future (intake.run limit strokes) := by
  induction strokes generalizing intake with
  | nil => exact h
  | cons stroke strokes ih =>
    rw [List.flatMap_cons, List.append_assoc] at h
    exact ih (h.play hpackets htail)

theorem settle (h : Keeps limit packets tail [] intake)
    (hpackets : ∀ p ∈ packets, p.Assembled limit) (htail : Stops limit tail (.incomplete tail)) :
    Keeps limit packets tail [] (intake.settle limit) ∧ (intake.settle limit).given = packets ∧
      (intake.settle limit).buffer = tail := by
  induction hn : intake.buffer.length using Nat.strongRecOn generalizing intake with
  | ind n ih =>
    rcases h.attempt_cases hpackets htail with ⟨p, rest, hcut, hafter⟩ | ⟨hcut, hafter, hend⟩
    · have hlt : (intake.attempt limit).buffer.length < n := by
        rw [← hn, attempt_of_cut hcut]
        exact length_snd_cut_lt hcut
      rw [settle_of_packet hcut]
      exact ih _ hlt hafter rfl
    · obtain ⟨hgiven, hbuffer⟩ := hend rfl
      rw [settle_of_none hcut]
      refine ⟨hafter, ?_, ?_⟩
      · rw [attempt_of_cut hcut, given, List.filterMap_append]
        rw [← hgiven]
        exact List.append_nil _
      · rw [attempt_of_cut hcut]
        exact hbuffer

end Keeps

/-- Requests and the beginning of one more arrive in any pieces, with any attempts to cut in between, and then
cuts are made until one gives nothing.  The requests come out in their order, each at an attempt after its last
octet arrived; every other attempt gives nothing and leaves the buffer as it was; and the beginning of the last
one stays in the buffer. -/
theorem gives_requests_in_order {limit : Nat} {packets : List Packet} {tail : Octets}
    {strokes : List Stroke} (hpackets : ∀ p ∈ packets, p.Assembled limit)
    (htail : Stops limit tail (.incomplete tail))
    (hfed : strokes.flatMap Stroke.octets = packets.flatMap Packet.encode ++ tail) :
    let done := (run limit strokes {}).settle limit
    done.given = packets ∧ done.buffer = tail ∧
      ∀ earlier attempt later, done.attempts = earlier ++ attempt :: later → attempt.Timely earlier := by
  intro done
  have hnew : Keeps limit packets tail (strokes.flatMap Stroke.octets ++ []) {} := by
    refine ⟨⟨packets, rfl, ?_⟩, rfl, ?_⟩
    · rw [List.append_nil, hfed]
      rfl
    · intro earlier attempt later hsplit
      simp at hsplit
  obtain ⟨hkeeps, hgiven, hbuffer⟩ := (hnew.run hpackets htail).settle hpackets htail
  exact ⟨hgiven, hbuffer, hkeeps.timely⟩

/-- A lookup whose header arrives in two pieces, a request without a body, and the beginning of a third one. -/
theorem gives_requests_in_order_split_header :
    let packets : List Packet :=
      [⟨{ magic := 0x80, keyLength := 3, totalBody := 3, echo := 42 }, [102, 111, 111]⟩,
        ⟨{ magic := 0x80, opcode := 10 }, []⟩]
    let tail : Octets := Header.encode { magic := 0x80, keyLength := 2, totalBody := 2 } ++ [97]
    let sent := packets.flatMap Packet.encode ++ tail
    let strokes : List Stroke := [.cut, .feed (sent.take 13), .cut, .feed ((sent.drop 13).take 30), .cut,
      .cut, .feed [], .feed (sent.drop 43)]
    let done := (run 3 strokes {}).settle 3
    (∀ p ∈ packets, p.Assembled 3) ∧ Stops 3 tail (.incomplete tail) ∧
      strokes.flatMap Stroke.octets = packets.flatMap Packet.encode ++ tail ∧
      done.given = packets ∧ done.buffer = tail ∧
      ∀ earlier attempt later, done.attempts = earlier ++ attempt :: later → attempt.Timely earlier := by
  intro packets tail sent strokes done
  have hpackets : ∀ p ∈ packets, p.Assembled 3 := by
    simp only [packets, List.forall_mem_cons]
    exact ⟨⟨rfl, rfl, by decide⟩, ⟨rfl, rfl, by decide⟩, nofun⟩
  have htail : Stops 3 tail (.incomplete tail) := .unfinished (by decide) (by decide)
  have hfed : strokes.flatMap Stroke.octets = packets.flatMap Packet.encode ++ tail := by decide
  exact ⟨hpackets, htail, hfed, gives_requests_in_order hpackets htail hfed⟩

end Intake

end ShardedCache.Frame
