import ShardedCache.Proofs.Frame.Assembly
import ShardedCache.Proofs.Stream.Arrival

namespace ShardedCache.Frame

inductive Verdict where
  | taken
  | waiting
  | tooLong
  /-- The frame that is taken off is no request. -/
  | foreign
deriving DecidableEq, Repr

/-- How a cut of a buffer comes to a verdict, with its answer and what it leaves. -/
inductive Comes (limit : Nat) : Octets → Verdict → Except Fault (Option Packet) → Octets → Prop
  | taken {p : Packet} {rest : Octets} :
    p.Assembled limit → Comes limit (p.encode ++ rest) .taken (.ok (some p)) rest
  | short {buffer : Octets} : buffer.length < Header.size → Comes limit buffer .waiting (.ok none) buffer
  | unfinished {header : Header} {body : Octets} :
    header.totalBody.toNat ≤ limit → body.length < header.totalBody.toNat →
      Comes limit (header.encode ++ body) .waiting (.ok none) (header.encode ++ body)
  /-- Whether or not the body is there. -/
  | tooLong {header : Header} {body : Octets} :
    limit < header.totalBody.toNat →
      Comes limit (header.encode ++ body) .tooLong
        (.error (.framing (.bodyTooLong header.totalBody.toNat limit))) (header.encode ++ body)
  | foreign {p : Packet} {rest : Octets} :
    p.Complete → p.header.totalBody.toNat ≤ limit → p.header.magic ≠ Header.requestMagic →
      Comes limit (p.encode ++ rest) .foreign (.error (.framing (.wrongMagic p.header.magic))) rest

/-- The verdict as one sees it from outside. -/
def Verdict.seen (buffer : Octets) (answer : Except Fault (Option Packet)) (rest : Octets) : Verdict :=
  match answer with
  | .ok (some _) => .taken
  | .ok none => .waiting
  | .error _ => if rest = buffer then .tooLong else .foreign

namespace Comes

variable {limit : Nat} {buffer rest : Octets} {verdict other : Verdict} {answer : Except Fault (Option Packet)}

theorem cut_eq (h : Comes limit buffer verdict answer rest) : cut limit buffer = (answer, rest) := by
  cases h with
  | taken hp => exact cut_eq_packet_iff.mpr ⟨rfl, hp⟩
  | short hshort => exact cut_short hshort
  | unfinished hlimit hbody => rw [cut_encode_append, if_neg (Nat.not_lt.mpr hlimit), if_pos hbody]
  | tooLong hlimit => rw [cut_encode_append, if_pos hlimit]
  | @foreign p rest hp hlimit hmagic =>
    have hbody : ¬ (p.body ++ rest).length < p.header.totalBody.toNat := by
      rw [List.length_append, hp]
      omega
    rw [Packet.encode, List.append_assoc, cut_encode_append, if_neg (Nat.not_lt.mpr hlimit),
      if_neg hbody, if_neg hmagic, hp, List.drop_left]

theorem exists_of_buffer (limit : Nat) (buffer : Octets) :
    ∃ verdict answer rest, Comes limit buffer verdict answer rest := by
  by_cases hshort : buffer.length < Header.size
  · exact ⟨_, _, _, .short hshort⟩
  obtain ⟨header, body, rfl⟩ := Header.exists_encode_append (Nat.le_of_not_lt hshort)
  by_cases hlimit : limit < header.totalBody.toNat
  · exact ⟨_, _, _, .tooLong hlimit⟩
  have hwithin : header.totalBody.toNat ≤ limit := Nat.le_of_not_lt hlimit
  by_cases hbody : body.length < header.totalBody.toNat
  · exact ⟨_, _, _, .unfinished hwithin hbody⟩
  obtain ⟨hcomplete, hsplit⟩ := Packet.complete_of_announced header (Nat.le_of_not_lt hbody)
  rw [hsplit]
  by_cases hmagic : header.magic = Header.requestMagic
  · exact ⟨_, _, _, .taken ⟨hmagic, hcomplete, hwithin⟩⟩
  · exact ⟨_, _, _, .foreign hcomplete hwithin hmagic⟩

theorem rest_ne_of_frame (p : Packet) (rest : Octets) : rest ≠ p.encode ++ rest := by
  intro h
  have hlen := congrArg List.length h
  have hsize : 0 < Header.size := by decide
  rw [List.length_append, Packet.length_encode, Packet.encodedLength] at hlen
  omega

theorem verdict_eq (h : Comes limit buffer verdict answer rest) : verdict = .seen buffer answer rest := by
  cases h with
  | taken _ => rfl
  | short _ => rfl
  | unfinished _ _ => rfl
  | tooLong _ => exact (if_pos rfl).symm
  | @foreign p rest _ _ _ => exact (if_neg (rest_ne_of_frame p rest)).symm

end Comes

variable {limit : Nat} {buffer rest : Octets} {answer : Except Fault (Option Packet)} {fault : Fault}

theorem cut_eq_iff :
    cut limit buffer = (answer, rest) ↔ ∃ verdict, Comes limit buffer verdict answer rest := by
  constructor
  · intro hcut
    obtain ⟨verdict, other, left, hcomes⟩ := Comes.exists_of_buffer limit buffer
    obtain ⟨rfl, rfl⟩ := Prod.mk.inj (hcomes.cut_eq.symm.trans hcut)
    exact ⟨verdict, hcomes⟩
  · rintro ⟨verdict, hcomes⟩
    exact hcomes.cut_eq

theorem refused_iff :
    cut limit buffer = (.error fault, buffer) ↔
      ∃ header body, buffer = Header.encode header ++ body ∧ limit < header.totalBody.toNat ∧
        fault = .framing (.bodyTooLong header.totalBody.toNat limit) := by
  rw [cut_eq_iff]
  constructor
  · rintro ⟨verdict, hcomes⟩
    have hverdict := hcomes.verdict_eq
    simp only [Verdict.seen, if_true] at hverdict
    subst hverdict
    cases hcomes with
    | tooLong hlimit => exact ⟨_, _, rfl, hlimit, rfl⟩
  · rintro ⟨header, body, rfl, hlimit, rfl⟩
    exact ⟨.tooLong, .tooLong hlimit⟩

theorem dropped_iff :
    cut limit buffer = (.error fault, rest) ∧ rest ≠ buffer ↔
      ∃ p : Packet, buffer = p.encode ++ rest ∧ p.Complete ∧ p.header.totalBody.toNat ≤ limit ∧
        p.header.magic ≠ Header.requestMagic ∧ fault = .framing (.wrongMagic p.header.magic) := by
  rw [cut_eq_iff]
  constructor
  · rintro ⟨⟨verdict, hcomes⟩, hrest⟩
    have hverdict := hcomes.verdict_eq
    simp only [Verdict.seen, if_neg hrest] at hverdict
    subst hverdict
    cases hcomes with
    | foreign hp hlimit hmagic => exact ⟨_, rfl, hp, hlimit, hmagic, rfl⟩
  · rintro ⟨p, rfl, hp, hlimit, hmagic, rfl⟩
    exact ⟨⟨.foreign, .foreign hp hlimit hmagic⟩, Comes.rest_ne_of_frame p rest⟩

theorem length_snd_cut_le (h : cut limit buffer = (answer, rest)) : rest.length ≤ buffer.length := by
  obtain ⟨verdict, hcomes⟩ := cut_eq_iff.mp h
  cases hcomes with
  | taken _ => exact (List.suffix_append _ _).length_le
  | short _ => exact Nat.le_refl _
  | unfinished _ _ => exact Nat.le_refl _
  | tooLong _ => exact Nat.le_refl _
  | foreign _ _ _ => exact (List.suffix_append _ _).length_le

theorem length_of_waiting (h : cut limit buffer = (.ok none, rest)) : rest.length < Header.size + limit := by
  obtain ⟨verdict, hcomes⟩ := cut_eq_iff.mp h
  cases hcomes with
  | short hshort => omega
  | unfinished hlimit hbody =>
    rw [List.length_append, Header.length_encode]
    omega

end ShardedCache.Frame
