import ShardedCache.Proofs.Packet.HeaderCodec
import ShardedCache.Proofs.Store.Entries

namespace ShardedCache.Item

variable {item : Item} {blob : Octets}

/-- What stands before a value without flags, if the flags are written out all the same. -/
def idleFlags : Octets := [1, 0, 0, 0, 0]

theorem lead_idleFlags (value : Octets) :
    1 :: (Octets.bigEndian 4 (0 : UInt32).toNat ++ value) = idleFlags ++ value := by
  have hzero : Octets.bigEndian 4 (0 : UInt32).toNat = [0, 0, 0, 0] := by decide
  rw [hzero]
  rfl

theorem lead_cases (flags : UInt32) :
    lead flags = [0] ∧ flags = 0 ∨ lead flags = 1 :: Octets.bigEndian 4 flags.toNat ∧ flags ≠ 0 := by
  rw [lead]
  by_cases h : flags = 0
  · exact .inl ⟨if_pos h, h⟩
  · exact .inr ⟨if_neg h, h⟩

theorem unpack_flagged (flags : UInt32) (value : Octets) :
    unpack (1 :: (Octets.bigEndian 4 flags.toNat ++ value)) = .ok ⟨value, flags⟩ := by
  have hlt := flags.toNat_lt
  have hroom : (1 : UInt8) = 1 ∧ 4 ≤ (Octets.bigEndian 4 flags.toNat ++ value).length := by
    rw [List.length_append, Octets.length_bigEndian]
    exact ⟨rfl, Nat.le_add_right 4 value.length⟩
  rw [unpack, if_pos hroom, Octets.number_append, Octets.capacity_four, Nat.mod_eq_of_lt hlt]
  · dsimp only
    rw [UInt32.ofNat_toNat]
  · decide

theorem unpack_eq_ok_iff :
    unpack blob = .ok item ↔
      blob = 0 :: item.value ∧ item.flags = 0 ∨
        blob = 1 :: (Octets.bigEndian 4 item.flags.toNat ++ item.value) := by
  constructor
  · intro h
    rw [unpack.eq_def] at h
    split at h
    · cases h
    · obtain rfl := Except.ok.inj h
      exact .inl ⟨rfl, rfl⟩
    · rename_i tag rest _
      split at h
      · rename_i htag
        obtain ⟨rfl, hroom⟩ := htag
        obtain rfl := Except.ok.inj h
        have hfour : (rest.take 4).length = 4 := List.length_take_of_le hroom
        have hlt := Octets.toNat_lt_of_length hfour
        rw [Octets.capacity_four] at hlt
        have hflags : (UInt32.ofNat (Octets.toNat (rest.take 4))).toNat = Octets.toNat (rest.take 4) := by
          rw [UInt32.toNat_ofNat', Nat.mod_eq_of_lt hlt]
        refine .inr ?_
        dsimp only
        rw [hflags, Octets.bigEndian_toNat_of_length hfour, List.take_append_drop]
      · cases h
  · obtain ⟨value, flags⟩ := item
    rintro (⟨rfl, rfl⟩ | rfl)
    · rfl
    · exact unpack_flagged flags value

theorem exists_unpack_iff :
    (∃ item, unpack blob = .ok item) ↔ blob.head? = some 0 ∨ blob.head? = some 1 ∧ 5 ≤ blob.length := by
  constructor
  · rintro ⟨item, h⟩
    rcases unpack_eq_ok_iff.mp h with ⟨rfl, -⟩ | rfl
    · exact .inl rfl
    · refine .inr ⟨rfl, ?_⟩
      simp only [List.length_cons, List.length_append, Octets.length_bigEndian]
      omega
  · intro h
    match blob with
    | [] => simp at h
    | tag :: rest =>
      simp only [List.head?_cons, Option.some.injEq, List.length_cons] at h
      rcases h with rfl | ⟨rfl, hlength⟩
      · exact ⟨_, rfl⟩
      · have hroom : (1 : UInt8) = 1 ∧ 4 ≤ rest.length := ⟨rfl, by omega⟩
        rw [unpack, if_pos hroom]
        · exact ⟨_, rfl⟩
        · decide

theorem idleFlags_prefix_iff (flags : UInt32) (value : Octets) :
    idleFlags <+: 1 :: (Octets.bigEndian 4 flags.toNat ++ value) ↔ flags = 0 := by
  constructor
  · rintro ⟨rest, hrest⟩
    have hopen := unpack_flagged flags value
    rw [← hrest, ← lead_idleFlags, unpack_flagged] at hopen
    exact congrArg Item.flags (Except.ok.inj hopen).symm
  · rintro rfl
    exact ⟨value, (lead_idleFlags value).symm⟩

theorem pack_of_unpack (h : unpack blob = .ok item) :
    (item.pack = blob ↔ ¬ idleFlags <+: blob) ∧
      (idleFlags <+: blob → blob = idleFlags ++ item.value ∧ item.pack = 0 :: item.value) := by
  obtain ⟨value, flags⟩ := item
  rcases unpack_eq_ok_iff.mp h with ⟨rfl, hflags⟩ | rfl
  · obtain rfl : flags = 0 := hflags
    have hother : ¬ idleFlags <+: 0 :: value := by
      rintro ⟨rest, hrest⟩
      cases hrest
    exact ⟨iff_of_true rfl hother, fun hidle => absurd hidle hother⟩
  · rw [idleFlags_prefix_iff]
    rcases lead_cases flags with ⟨hlead, rfl⟩ | ⟨hlead, hflags⟩
    · have hne : (⟨value, 0⟩ : Item).pack ≠ 1 :: (Octets.bigEndian 4 (0 : UInt32).toNat ++ value) := by
        rw [pack, hlead]
        intro heq
        cases heq
      exact ⟨iff_of_false hne (not_not_intro rfl), fun _ => ⟨lead_idleFlags value, rfl⟩⟩
    · refine ⟨iff_of_true ?_ hflags, fun hzero => absurd hzero hflags⟩
      rw [pack, hlead]
      rfl

/-- Items and their stored forms.

* An item is taken out of its stored form as it was, so that different items have different forms.  A form that is begun
  for any length is that of the value that is then written, and has just the room for a value of that length.
* A blob opens exactly if it begins with a zero, or with a one and four octets more.  Any other is refused as an invalid
  value.
* What is taken out of a blob is packed into the same blob, with one exception: where flags are written out although they
  are zero, packing leaves them out. -/
theorem forms_inverse :
    (∀ item, unpack item.pack = .ok item) ∧
      (∀ flags length value, (draft flags length).octets ++ value = pack ⟨value, flags⟩ ∧
        (value.length = length → (pack ⟨value, flags⟩).length = (draft flags length).room)) ∧
      Function.Injective pack ∧
      (∀ blob, (∃ item, unpack blob = .ok item) ↔
        blob.head? = some 0 ∨ blob.head? = some 1 ∧ 5 ≤ blob.length) ∧
      (∀ blob fault, unpack blob = .error fault → fault.family = .value) ∧
      ∀ blob item, unpack blob = .ok item →
        (item.pack = blob ↔ ¬ [1, 0, 0, 0, 0] <+: blob) ∧
          ([1, 0, 0, 0, 0] <+: blob →
            blob = [1, 0, 0, 0, 0] ++ item.value ∧ item.pack = 0 :: item.value) := by
  refine ⟨unpack_pack, ?_, ?_, ?_, ?_, ?_⟩
  · intro flags length value
    refine ⟨rfl, ?_⟩
    rintro rfl
    exact List.length_append
  · intro a b h
    exact pack_injective h
  · intro blob
    exact exists_unpack_iff
  · intro blob fault h
    exact family_of_unpack h
  · intro blob item h
    exact pack_of_unpack h

/-- A value whose flags are written out although they are zero, and one whose flags are not all there. -/
theorem forms_inverse_idle_flags :
    unpack [1, 0, 0, 0, 0, 7] = .ok ⟨[7], 0⟩ ∧ [1, 0, 0, 0, 0] <+: ([1, 0, 0, 0, 0, 7] : Octets) ∧
      pack ⟨[7], 0⟩ = [0, 7] ∧ pack ⟨[7], 0⟩ ≠ [1, 0, 0, 0, 0, 7] ∧
      ∃ fault, unpack [1, 0, 0, 0] = .error fault ∧ fault.family = .value := by
  have hopen : unpack [1, 0, 0, 0, 0, 7] = .ok ⟨[7], 0⟩ := rfl
  have hidle : [1, 0, 0, 0, 0] <+: ([1, 0, 0, 0, 0, 7] : Octets) := ⟨[7], rfl⟩
  obtain ⟨-, -, -, -, hrefused, hback⟩ := forms_inverse
  obtain ⟨hsame, hplain⟩ := hback _ _ hopen
  refine ⟨hopen, hidle, (hplain hidle).2, fun heq => hsame.mp heq hidle, _, rfl, ?_⟩
  exact hrefused [1, 0, 0, 0] _ rfl

end ShardedCache.Item
