import Mathlib.Logic.ExistsUnique
import ShardedCache.Proofs.Frame.Schedule

namespace ShardedCache.Frame

namespace Intake

variable {limit : Nat} {intake : Intake} {fault : Fault}

/-- Whatever arrives at a refused buffer and however often it is cut, it stays refused. -/
theorem refused_play (h : Frame.cut limit intake.buffer = (.error fault, intake.buffer)) (stroke : Stroke) :
    let after := intake.play limit stroke
    Frame.cut limit after.buffer = (.error fault, after.buffer) ∧
      ∃ later, after.attempts = intake.attempts ++ later ∧
        ∀ attempt ∈ later, attempt.answer = .error fault ∧ attempt.after = attempt.before := by
  cases stroke with
  | feed piece =>
    obtain ⟨header, body, hbuffer, hlimit, hfault⟩ := refused_iff.mp h
    refine ⟨refused_iff.mpr ⟨header, body ++ piece, ?_, hlimit, hfault⟩, [], ?_, nofun⟩
    · rw [← List.append_assoc, ← hbuffer]
      rfl
    · exact (List.append_nil _).symm
  | cut =>
    rw [play, attempt_of_cut h]
    refine ⟨h, _, rfl, ?_⟩
    intro attempt hattempt
    obtain rfl := List.mem_singleton.mp hattempt
    exact ⟨rfl, rfl⟩

theorem refused_for_good (h : Frame.cut limit intake.buffer = (.error fault, intake.buffer))
    (strokes : List Stroke) :
    ∃ later, (intake.run limit strokes).attempts = intake.attempts ++ later ∧
      ∀ attempt ∈ later, attempt.answer = .error fault ∧ attempt.after = attempt.before := by
  induction strokes generalizing intake with
  | nil => exact ⟨[], (List.append_nil _).symm, nofun⟩
  | cons stroke strokes ih =>
    obtain ⟨hafter, first, hfirst, hone⟩ := refused_play h stroke
    obtain ⟨later, hlater, hothers⟩ := ih hafter
    refine ⟨first ++ later, ?_, ?_⟩
    · rw [run, List.foldl_cons, ← run, hlater, hfirst, List.append_assoc]
    · intro attempt hattempt
      rcases List.mem_append.mp hattempt with hattempt | hattempt
      · exact hone attempt hattempt
      · exact hothers attempt hattempt

end Intake

/-- A cut accounts for every octet, whatever the buffer holds and whatever the limit is.

* It comes to exactly one verdict, with the answer and the rest that go with it, and what the buffer holds decides
  which.
* It fails with the buffer as it was exactly if a whole header announces more than the limit, and with the frame gone
  exactly if a whole frame within the limit is no request.
* Once a body was too long every later cut fails for the same reason, whatever arrives in between. -/
theorem cut_accounts (limit : Nat) (buffer : Octets) :
    (∃! verdict, Comes limit buffer verdict (cut limit buffer).1 (cut limit buffer).2) ∧
      (∀ verdict answer rest, Comes limit buffer verdict answer rest → cut limit buffer = (answer, rest)) ∧
      ((∃ cause, cut limit buffer = (.error (.framing cause), buffer)) ↔
        ∃ header body, buffer = Header.encode header ++ body ∧ limit < header.totalBody.toNat) ∧
      (∀ rest, (∃ cause, cut limit buffer = (.error (.framing cause), rest)) ∧ rest ≠ buffer ↔
        ∃ p : Packet, buffer = p.encode ++ rest ∧ p.Complete ∧ p.header.totalBody.toNat ≤ limit ∧
          p.header.magic ≠ Header.requestMagic) ∧
      ∀ announced bound, (cut limit buffer).1 = .error (.framing (.bodyTooLong announced bound)) →
        ∀ (intake : Intake) (strokes : List Stroke), intake.buffer = (cut limit buffer).2 →
          ∃ later, (intake.run limit strokes).attempts = intake.attempts ++ later ∧
            ∀ attempt ∈ later, attempt.answer = (cut limit buffer).1 ∧ attempt.after = attempt.before := by
  refine ⟨?_, ?_, ?_, ?_, ?_⟩
  · obtain ⟨verdict, hcomes⟩ := cut_eq_iff.mp (Prod.eta (cut limit buffer)).symm
    refine ⟨verdict, hcomes, ?_⟩
    intro other hother
    exact hother.verdict_eq.trans hcomes.verdict_eq.symm
  · intro verdict answer rest hcomes
    exact hcomes.cut_eq
  · constructor
    · rintro ⟨cause, hcut⟩
      obtain ⟨header, body, hbuffer, hlimit, -⟩ := refused_iff.mp hcut
      exact ⟨header, body, hbuffer, hlimit⟩
    · rintro ⟨header, body, hbuffer, hlimit⟩
      exact ⟨_, refused_iff.mpr ⟨header, body, hbuffer, hlimit, rfl⟩⟩
  · intro rest
    constructor
    · rintro ⟨⟨cause, hcut⟩, hrest⟩
      obtain ⟨p, hbuffer, hp, hlimit, hmagic, -⟩ := dropped_iff.mp ⟨hcut, hrest⟩
      exact ⟨p, hbuffer, hp, hlimit, hmagic⟩
    · rintro ⟨p, hbuffer, hp, hlimit, hmagic⟩
      obtain ⟨hcut, hrest⟩ := dropped_iff.mpr ⟨p, hbuffer, hp, hlimit, hmagic, rfl⟩
      exact ⟨⟨_, hcut⟩, hrest⟩
  · intro announced bound hanswer intake strokes hintake
    obtain ⟨verdict, hcomes⟩ := cut_eq_iff.mp (Prod.eta (cut limit buffer)).symm
    generalize (cut limit buffer).1 = answer, (cut limit buffer).2 = rest at hcomes hanswer hintake ⊢
    subst hanswer
    cases hcomes with
    | tooLong hlimit =>
      apply Intake.refused_for_good
      rw [hintake]
      exact (Comes.tooLong hlimit).cut_eq

/-- A header that announces one octet too many, met again after more has arrived and after the body is there. -/
theorem cut_accounts_long_body :
    let buffer := Header.encode { magic := 0x80, totalBody := 11 }
    let strokes : List Stroke := [.cut, .feed [1, 2, 3], .cut, .feed (List.replicate 8 0), .cut]
    (cut 10 buffer).1 = .error (.framing (.bodyTooLong 11 10)) ∧
      ∃ later, (Intake.run 10 strokes { buffer := buffer }).attempts = [] ++ later ∧
        ∀ attempt ∈ later, attempt.answer = (cut 10 buffer).1 ∧ attempt.after = attempt.before := by
  intro buffer strokes
  have hcut : cut 10 buffer = (.error (.framing (.bodyTooLong 11 10)), buffer) :=
    refused_iff.mpr ⟨_, [], (List.append_nil _).symm, by decide, rfl⟩
  have hanswer : (cut 10 buffer).1 = .error (.framing (.bodyTooLong 11 10)) := by rw [hcut]
  have hrest : buffer = (cut 10 buffer).2 := by rw [hcut]
  obtain ⟨-, -, -, -, hgood⟩ := cut_accounts 10 buffer
  exact ⟨hanswer, hgood 11 10 hanswer { buffer := buffer } strokes hrest⟩

end ShardedCache.Frame
