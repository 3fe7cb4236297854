import ShardedCache.Proofs.Packet.HeaderCodec

namespace ShardedCache

namespace Octets

/-- The word in four octets from a place on, each looked at by itself; none if one of them is not there. -/
def word? (bs : Octets) (place : Nat) : Option UInt32 := do
  let first ← bs[place]?
  let second ← bs[place + 1]?
  let third ← bs[place + 2]?
  let fourth ← bs[place + 3]?
  return UInt32.ofNat (toNat [first, second, third, fourth])

/-- Octets looked at one by one give the number that they write together. -/
theorem word?_of_le {bs : Octets} {place : Nat} (h : place + 4 ≤ bs.length) :
    bs.word? place = some (UInt32.ofNat (toNat ((bs.drop place).take 4))) := by
  have hfour : 4 ≤ (bs.drop place).length := by
    rw [List.length_drop]
    omega
  match hrest : bs.drop place, hfour with
  | first :: second :: third :: fourth :: rest, _ =>
    have hplace (i : Nat) : bs[place + i]? = (first :: second :: third :: fourth :: rest)[i]? := by
      rw [← List.getElem?_drop, hrest]
    have hfirst : bs[place]? = some first := hplace 0
    rw [word?, hfirst, hplace 1, hplace 2, hplace 3]
    rfl

end Octets

namespace Packet

variable {p : Packet} {header : Header} {extras key value : Octets}

theorem key?_eq_some_iff :
    p.key? = some key ↔
      p.header.extrasLength.toNat + p.header.keyLength.toNat ≤ p.body.length ∧
        key = (p.body.drop p.header.extrasLength.toNat).take p.header.keyLength.toNat :=
  Octets.slice?_eq_some_iff

theorem length_of_key? (h : p.key? = some key) : key.length = p.header.keyLength.toNat :=
  Octets.length_of_slice? h

theorem length_key?_lt (h : p.key? = some key) : key.length < 65536 := by
  rw [length_of_key? h]
  exact p.header.keyLength.toNat_lt

theorem isSome_extras? : p.extras?.isSome = true ↔ p.header.extrasLength.toNat ≤ p.body.length := by
  rw [extras?, Octets.slice?, Nat.zero_add]
  exact Option.isSome_ite

theorem isSome_key? : p.key?.isSome = true ↔
    p.header.extrasLength.toNat + p.header.keyLength.toNat ≤ p.body.length := by
  rw [key?, Octets.slice?]
  exact Option.isSome_ite

theorem isSome_value? : p.value?.isSome = true ↔
    p.header.extrasLength.toNat + p.header.keyLength.toNat ≤ p.body.length := by
  rw [value?]
  exact Option.isSome_ite

theorem extrasLength_lt_iff :
    p.header.extrasLength < setExtrasLength ↔ p.header.extrasLength.toNat < 8 := by
  rw [UInt8.lt_iff_toNat_lt]
  exact Iff.rfl

/-- The three segments of a packet are there, and are its body cut as the header measures it. -/
structure Parts (p : Packet) (extras key value : Octets) : Prop where
  extras_eq : p.extras? = some extras
  key_eq : p.key? = some key
  value_eq : p.value? = some value
  length_extras : extras.length = p.header.extrasLength.toNat
  length_key : key.length = p.header.keyLength.toNat
  body_eq : extras ++ key ++ value = p.body

theorem parts_of_le (h : p.header.extrasLength.toNat + p.header.keyLength.toNat ≤ p.body.length) :
    p.Parts (p.body.take p.header.extrasLength.toNat)
      ((p.body.drop p.header.extrasLength.toNat).take p.header.keyLength.toNat)
      (p.body.drop (p.header.extrasLength.toNat + p.header.keyLength.toNat)) := by
  have hextras : p.extras? = some (p.body.take p.header.extrasLength.toNat) :=
    Octets.slice?_eq_some_iff.mpr ⟨by omega, rfl⟩
  have hkey := key?_eq_some_iff.mpr ⟨h, rfl⟩
  refine ⟨hextras, hkey, if_pos h, Octets.length_of_slice? hextras, length_of_key? hkey, ?_⟩
  rw [List.append_assoc, ← List.drop_drop, List.take_append_drop, List.take_append_drop]

theorem parts_of_append (hextras : header.extrasLength.toNat = extras.length)
    (hkey : header.keyLength.toNat = key.length) :
    Parts ⟨header, extras ++ key ++ value⟩ extras key value := by
  refine ⟨?_, ?_, ?_, hextras.symm, hkey.symm, rfl⟩
  · rw [extras?, hextras, List.append_assoc]
    exact Octets.slice?_append [] extras (key ++ value)
  · rw [key?, hextras, hkey, List.append_assoc]
    exact Octets.slice?_append extras key value
  · have hfront : (extras ++ key).length ≤ (extras ++ key ++ value).length :=
      (List.prefix_append _ value).length_le
    rw [value?, hextras, hkey, ← List.length_append, if_pos hfront, List.drop_left]

theorem exists_parts (h : p.key?.isSome = true) : ∃ extras key value, p.Parts extras key value :=
  ⟨_, _, _, parts_of_le (isSome_key?.mp h)⟩

theorem Parts.length_body (h : p.Parts extras key value) :
    p.header.extrasLength.toNat + p.header.keyLength.toNat + value.length = p.body.length := by
  rw [← h.length_extras, ← h.length_key, ← h.body_eq, List.length_append, List.length_append]

theorem valueLength?_eq (h : p.header.totalBody.toNat = p.body.length) :
    p.header.valueLength? = p.value?.map List.length := by
  rw [Header.valueLength?, h, value?]
  split
  · rw [Option.map_some, List.length_drop]
  · rfl

end Packet

end ShardedCache
