import ShardedCache.Proofs.Packet.Layout
import ShardedCache.Proofs.Service.Answering

namespace ShardedCache

theorem Octets.ofNat_toNat_bigEndian (word : UInt32) :
    UInt32.ofNat (toNat (bigEndian 4 word.toNat)) = word := by
  rw [toNat_bigEndian_of_lt word.toNat_lt, UInt32.ofNat_toNat]

namespace Packet

variable {op : Opcode} {mark span key value : Octets} {flags expiry echo : UInt32} {put : Packet}

theorem Laid.deposit? (h : Laid (mark ++ span) key value put) (hmark : mark.length = 4) (hspan : span.length = 4) :
    put.deposit? = some ⟨key, ⟨value, .ofNat (Octets.toNat mark)⟩, .ofNat (Octets.toNat span)⟩ := by
  have height : put.header.extrasLength.toNat = 8 := by
    rw [← Octets.length_of_slice? h.extras_eq, List.length_append, hmark, hspan]
  obtain ⟨-, hextras⟩ := Octets.slice?_eq_some_iff.mp h.extras_eq
  obtain ⟨hbody, hkey⟩ := key?_eq_some_iff.mp h.key_eq
  have hvalue := h.value_eq
  rw [value?, if_pos hbody, Option.some.injEq] at hvalue
  rw [height] at hextras hkey hvalue hbody
  have hflags : put.body.take 4 = mark := by
    have hfront := congrArg (List.take 4) hextras
    rw [List.take_left' hmark, List.drop_zero, List.take_take] at hfront
    exact hfront.symm
  have hexpiry : (put.body.drop 4).take 4 = span := by
    have hback := congrArg (List.drop 4) hextras
    rw [List.drop_left' hmark, List.drop_zero, List.drop_take] at hback
    exact hback.symm
  simp only [Packet.deposit?, height, if_pos (And.intro (Nat.le_refl 8) hbody), hflags, hexpiry, hvalue, ← hkey]

theorem Laid.assembled {extras : Octets} (h : Laid extras key value put) {limit : Nat}
    (hlimit : put.body.length ≤ limit) : put.Assembled limit := by
  have htaken := h.taken limit [] (Nat.le_trans (Nat.le_of_eq h.total) hlimit)
  exact (Frame.cut_eq_packet_iff.mp htaken).2

theorem exists_setRequest (key value : Octets) (op : Opcode) (flags expiry echo : UInt32) (hkey : key.length ≤ 65535)
    (hlength : 8 + key.length + value.length ≤ 4294967295) :
    ∃ put, setRequest op key value flags expiry echo = .ok put :=
  (setRequest_builds op key value flags expiry echo).ok_iff.mpr ⟨hkey, hlength⟩

/-- A request to store, as it is built, is one that stores its key, value, flags and expiry. -/
theorem setRequest_spec (h : setRequest op key value flags expiry echo = .ok put) :
    put.header.command? = some op ∧ put.deposit? = some ⟨key, ⟨value, flags⟩, expiry⟩ ∧
      put.body.length = 8 + key.length + value.length ∧
      ∀ limit, put.body.length ≤ limit → put.Assembled limit := by
  obtain ⟨hcommand, -, hlaid⟩ := (setRequest_builds op key value flags expiry echo).built put h
  refine ⟨hcommand, ?_, ?_, ?_⟩
  · rw [hlaid.deposit? (Octets.length_bigEndian ..) (Octets.length_bigEndian ..),
      Octets.ofNat_toNat_bigEndian, Octets.ofNat_toNat_bigEndian]
  · rw [hlaid.lengths, ← Octets.length_of_slice? hlaid.extras_eq, ← Octets.length_of_slice? hlaid.key_eq,
      List.length_append, Octets.length_bigEndian, Octets.length_bigEndian]
  · exact fun limit hlimit => hlaid.assembled hlimit

theorem exists_getRequest (op : Opcode) (echo : UInt32) (hkey : key.length ≤ 65535) :
    ∃ get, getRequest op key echo = .ok get := by
  have htotal : ([] : Octets).length + key.length + ([] : Octets).length ≤ 4294967295 := by
    simp only [List.length_nil]
    omega
  exact (getRequest_builds op key echo).ok_iff.mpr ⟨hkey, htotal⟩

theorem getRequest_spec {get : Packet} (h : getRequest op key echo = .ok get) :
    get.header.command? = some op ∧ get.key? = some key ∧
      ∀ limit, key.length ≤ limit → get.Assembled limit := by
  obtain ⟨hcommand, -, hlaid⟩ := (getRequest_builds op key echo).built get h
  refine ⟨hcommand, hlaid.key_eq, ?_⟩
  intro limit hlimit
  apply hlaid.assembled
  rw [hlaid.lengths, ← Octets.length_of_slice? hlaid.extras_eq, ← Octets.length_of_slice? hlaid.key_eq,
    List.length_nil, Nat.zero_add, Nat.add_zero]
  exact hlimit

end Packet

end ShardedCache
