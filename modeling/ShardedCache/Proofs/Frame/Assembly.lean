import ShardedCache.Frame
import ShardedCache.Proofs.Packet.HeaderCodec

namespace ShardedCache

/-- A request as it is cut from a stream within a limit. -/
structure Packet.Assembled (limit : Nat) (p : Packet) : Prop where
  magic : p.header.magic = Header.requestMagic
  total : p.header.totalBody.toNat = p.body.length
  le_limit : p.header.totalBody.toNat ≤ limit

namespace Frame

theorem cut_encode_append (limit : Nat) (header : Header) (rest : Octets) :
    cut limit (header.encode ++ rest) =
      if limit < header.totalBody.toNat then
        (.error (.framing (.bodyTooLong header.totalBody.toNat limit)), header.encode ++ rest)
      else if rest.length < header.totalBody.toNat then (.ok none, header.encode ++ rest)
      else if header.magic = Header.requestMagic then
        (.ok (some { header, body := rest.take header.totalBody.toNat }),
          rest.drop header.totalBody.toNat)
      else (.error (.framing (.wrongMagic header.magic)), rest.drop header.totalBody.toNat) := by
  have hlen : (header.encode ++ rest).length = Header.size + rest.length := by
    rw [List.length_append, Header.length_encode]
  have hshort : ¬ (header.encode ++ rest).length < Header.size := by omega
  rw [cut, if_neg hshort]
  simp only [Header.peekTotalBody?_encode_append, hlen, Nat.add_lt_add_iff_left]
  have hsplit : Header.size + header.totalBody.toNat =
      header.encode.length + header.totalBody.toNat := by rw [Header.length_encode]
  rw [hsplit, List.take_length_add_append, List.drop_length_add_append, Header.decode_encode]

theorem cut_short {limit : Nat} {buffer : Octets} (h : buffer.length < Header.size) :
    cut limit buffer = (.ok none, buffer) := by
  rw [cut, if_pos h]

/-- A cut gives a packet exactly if the packet is well formed within the limit and stands in front. -/
theorem cut_eq_packet_iff {limit : Nat} {buffer rest : Octets} {p : Packet} :
    cut limit buffer = (.ok (some p), rest) ↔ buffer = p.encode ++ rest ∧ p.Assembled limit := by
  constructor
  · intro h
    by_cases hshort : buffer.length < Header.size
    · simp [cut_short hshort] at h
    obtain ⟨header, tail, rfl⟩ := Header.exists_encode_append (Nat.le_of_not_lt hshort)
    rw [cut_encode_append] at h
    split at h
    · simp at h
    rename_i hlimit
    split at h
    · simp at h
    rename_i hwhole
    split at h
    · rename_i hmagic
      simp only [Prod.mk.injEq, Except.ok.injEq, Option.some.injEq] at h
      obtain ⟨rfl, rfl⟩ := h
      refine ⟨?_, hmagic, ?_, Nat.le_of_not_lt hlimit⟩
      · rw [Packet.encode, List.append_assoc, List.take_append_drop]
      · exact (List.length_take_of_le (Nat.le_of_not_lt hwhole)).symm
    · simp at h
  · rintro ⟨rfl, hp⟩
    have hbody : ¬ (p.body ++ rest).length < p.header.totalBody.toNat := by
      rw [List.length_append, hp.total]
      omega
    rw [Packet.encode, List.append_assoc, cut_encode_append, if_neg (Nat.not_lt.mpr hp.le_limit),
      if_neg hbody, if_pos hp.magic, hp.total, List.take_left, List.drop_left]

theorem snd_cut_of_none {limit : Nat} {buffer rest : Octets}
    (h : cut limit buffer = (.ok none, rest)) : rest = buffer := by
  by_cases hshort : buffer.length < Header.size
  · rw [cut_short hshort] at h
    exact (Prod.mk.inj h).2.symm
  obtain ⟨header, tail, rfl⟩ := Header.exists_encode_append (Nat.le_of_not_lt hshort)
  rw [cut_encode_append] at h
  split at h
  · simp at h
  split at h
  · exact (Prod.mk.inj h).2.symm
  split at h <;> simp at h

theorem cut_append_of_error {limit : Nat} {buffer rest : Octets} {fault : Fault} (more : Octets)
    (h : cut limit buffer = (.error fault, rest)) :
    ∃ left, cut limit (buffer ++ more) = (.error fault, left) := by
  by_cases hshort : buffer.length < Header.size
  · simp [cut_short hshort] at h
  obtain ⟨header, tail, rfl⟩ := Header.exists_encode_append (Nat.le_of_not_lt hshort)
  rw [cut_encode_append] at h
  rw [List.append_assoc, cut_encode_append]
  split at h
  · rename_i hlimit
    rw [if_pos hlimit]
    exact ⟨_, by rw [(Prod.mk.inj h).1]⟩
  rename_i hlimit
  split at h
  · simp at h
  rename_i hwhole
  have hmore : ¬ (tail ++ more).length < header.totalBody.toNat := by
    rw [List.length_append]
    omega
  split at h
  · simp at h
  · rename_i hmagic
    rw [if_neg hlimit, if_neg hmore, if_neg hmagic]
    exact ⟨_, by rw [(Prod.mk.inj h).1]⟩

theorem cut_append_of_packet {limit : Nat} {buffer rest : Octets} {p : Packet} (more : Octets)
    (h : cut limit buffer = (.ok (some p), rest)) :
    cut limit (buffer ++ more) = (.ok (some p), rest ++ more) := by
  obtain ⟨rfl, hp⟩ := cut_eq_packet_iff.mp h
  exact cut_eq_packet_iff.mpr ⟨List.append_assoc .., hp⟩

theorem cutAll_of_none {limit : Nat} {buffer rest : Octets}
    (h : cut limit buffer = (.ok none, rest)) : cutAll limit buffer = ([], .incomplete buffer) := by
  rw [cutAll]
  split
  · rename_i heq
    rw [snd_cut_of_none heq]
  · rename_i heq
    simp [h] at heq
  · rename_i heq
    simp [h] at heq

theorem cutAll_of_error {limit : Nat} {buffer rest : Octets} {fault : Fault}
    (h : cut limit buffer = (.error fault, rest)) : cutAll limit buffer = ([], .violated fault) := by
  rw [cutAll]
  split
  · rename_i heq
    simp [h] at heq
  · rename_i heq
    simp only [h, Prod.mk.injEq, Except.error.injEq] at heq
    rw [heq.1]
  · rename_i heq
    simp [h] at heq

theorem cutAll_of_packet {limit : Nat} {buffer rest : Octets} {p : Packet}
    (h : cut limit buffer = (.ok (some p), rest)) :
    cutAll limit buffer = (p :: (cutAll limit rest).1, (cutAll limit rest).2) := by
  rw [cutAll]
  split
  · rename_i heq
    simp [h] at heq
  · rename_i heq
    simp [h] at heq
  · rename_i heq
    simp only [h, Prod.mk.injEq, Except.ok.injEq, Option.some.injEq] at heq
    obtain ⟨rfl, rfl⟩ := heq
    rfl

theorem cutAll_encode_append {limit : Nat} {p : Packet} (hp : p.Assembled limit) (rest : Octets) :
    cutAll limit (p.encode ++ rest) = (p :: (cutAll limit rest).1, (cutAll limit rest).2) :=
  cutAll_of_packet (cut_eq_packet_iff.mpr ⟨rfl, hp⟩)

theorem cutAll_nil (limit : Nat) : cutAll limit [] = ([], .incomplete []) :=
  cutAll_of_none (cut_short (by decide))

/-- What a buffer gives when more arrives: the same requests, and then those that start in what was
left over.  After a violation nothing that arrives counts. -/
theorem cutAll_append (limit : Nat) (buffer more : Octets) :
    cutAll limit (buffer ++ more) =
      match cutAll limit buffer with
      | (requests, .incomplete rest) =>
        (requests ++ (cutAll limit (rest ++ more)).1, (cutAll limit (rest ++ more)).2)
      | (requests, .violated fault) => (requests, .violated fault) := by
  -- Induction on the length of the buffer, since a packet that is cut off leaves a shorter one.
  induction hn : buffer.length using Nat.strongRecOn generalizing buffer with
  | ind n ih =>
    match hcut : cut limit buffer with
    | (.ok none, rest) => rw [cutAll_of_none hcut]; rfl
    | (.error fault, rest) =>
      obtain ⟨left, hleft⟩ := cut_append_of_error more hcut
      rw [cutAll_of_error hcut, cutAll_of_error hleft]
    | (.ok (some p), rest) =>
      have hlt := length_snd_cut_lt hcut
      rw [cutAll_of_packet hcut, cutAll_of_packet (cut_append_of_packet more hcut),
        ih rest.length (by omega) rest rfl]
      match cutAll limit rest with
      | (_, .incomplete _) => rfl
      | (_, .violated _) => rfl

theorem assembled_of_mem_cutAll {limit : Nat} {buffer : Octets} {p : Packet}
    (h : p ∈ (cutAll limit buffer).1) : p.Assembled limit := by
  induction hn : buffer.length using Nat.strongRecOn generalizing buffer with
  | ind n ih =>
    match hcut : cut limit buffer with
    | (.ok none, _) => simp [cutAll_of_none hcut] at h
    | (.error fault, _) => simp [cutAll_of_error hcut] at h
    | (.ok (some first), left) =>
      have hlt := length_snd_cut_lt hcut
      rw [cutAll_of_packet hcut, List.mem_cons] at h
      rcases h with rfl | h
      · exact (cut_eq_packet_iff.mp hcut).2
      · exact ih left.length (by omega) h rfl

end Frame

end ShardedCache
