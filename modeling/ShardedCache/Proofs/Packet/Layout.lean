import ShardedCache.Proofs.Frame.Assembly
import ShardedCache.Proofs.Packet.Segments

namespace ShardedCache.Packet

variable {extras key value : Octets} {op : Opcode} {echo : UInt32} {header : Header}

theorem checkedKeyLength_eq_ok_iff {extras : UInt8} {width : UInt16} :
    checkedKeyLength extras key value = .ok width ↔
      key.length ≤ 65535 ∧ extras.toNat + key.length + value.length ≤ 4294967295 ∧
        width = UInt16.ofNat key.length := by
  simp only [checkedKeyLength]
  split
  · rename_i hkey
    simp [Nat.not_le.mpr hkey]
  · rename_i hkey
    split
    · rename_i htotal
      simp [Nat.not_le.mpr htotal]
    · rename_i htotal
      simp only [Except.ok.injEq, Nat.le_of_not_lt hkey, Nat.le_of_not_lt htotal, true_and]
      exact eq_comm

theorem family_of_checkedKeyLength {extras : UInt8} {fault : Fault}
    (h : checkedKeyLength extras key value = .error fault) : fault.family = .value := by
  simp only [checkedKeyLength] at h
  split at h
  · obtain rfl := Except.error.inj h
    rfl
  · split at h
    · obtain rfl := Except.error.inj h
      rfl
    · cases h

/-- The packet is laid out as these segments, and its header says so. -/
structure Laid (extras key value : Octets) (p : Packet) : Prop where
  total : p.header.totalBody.toNat = p.body.length
  lengths : p.body.length = p.header.extrasLength.toNat + p.header.keyLength.toNat + value.length
  extras_eq : p.extras? = some extras
  key_eq : p.key? = some key
  value_eq : p.value? = some value
  valueLength : p.header.valueLength? = some value.length
  taken : ∀ limit more, p.header.totalBody.toNat ≤ limit →
    Frame.cut limit (p.encode ++ more) = (.ok (some p), more)

theorem laid_of_segments (hmagic : header.magic = Header.requestMagic)
    (hextras : header.extrasLength.toNat = extras.length) (hkey : header.keyLength.toNat = key.length)
    (htotal : header.totalBody.toNat = extras.length + key.length + value.length) :
    Laid extras key value ⟨header, extras ++ key ++ value⟩ := by
  have hlength : (extras ++ key ++ value).length = extras.length + key.length + value.length := by
    rw [List.length_append, List.length_append]
  have hcomplete : header.totalBody.toNat = (extras ++ key ++ value).length := htotal.trans hlength.symm
  have hparts : Parts ⟨header, extras ++ key ++ value⟩ extras key value := parts_of_append hextras hkey
  refine ⟨hcomplete, hparts.length_body.symm, hparts.extras_eq, hparts.key_eq, hparts.value_eq, ?_, ?_⟩
  · exact (valueLength?_eq hcomplete).trans (congrArg (Option.map List.length) hparts.value_eq)
  · intro limit more hlimit
    exact Frame.cut_eq_packet_iff.mpr ⟨rfl, hmagic, hcomplete, hlimit⟩

/-- What a builder comes to that is given these segments. -/
structure Builds (op : Opcode) (echo : UInt32) (extras key value : Octets) (outcome : Except Fault Packet) :
    Prop where
  ok_iff : (∃ p, outcome = .ok p) ↔
    key.length ≤ 65535 ∧ extras.length + key.length + value.length ≤ 4294967295
  refused : ∀ fault, outcome = .error fault → fault.family = .value
  built : ∀ p, outcome = .ok p →
    p.header.command? = some op ∧ p.header.echo = echo ∧ Laid extras key value p

theorem builds_of_checked {width : UInt8} {outcome : Except Fault Packet} (hextras : width.toNat = extras.length)
    (houtcome : outcome = (checkedKeyLength width key value).map fun keyLength =>
      ⟨{ Header.request op with echo := echo }.withLengths width keyLength value.length,
        extras ++ key ++ value⟩) :
    Builds op echo extras key value outcome := by
  cases hchecked : checkedKeyLength width key value with
  | error fault =>
    rw [hchecked] at houtcome
    subst houtcome
    refine ⟨?_, ?_, nofun⟩
    · apply iff_of_false nofun
      rintro ⟨hkey, htotal⟩
      have hfits := checkedKeyLength_eq_ok_iff.mpr ⟨hkey, hextras.symm ▸ htotal, rfl⟩
      rw [hchecked] at hfits
      cases hfits
    · rintro _ ⟨⟩
      exact family_of_checkedKeyLength hchecked
  | ok keyLength =>
    rw [hchecked] at houtcome
    subst houtcome
    obtain ⟨hkey, htotal, rfl⟩ := checkedKeyLength_eq_ok_iff.mp hchecked
    rw [hextras] at htotal
    refine ⟨iff_of_true ⟨_, rfl⟩ ⟨hkey, htotal⟩, nofun, ?_⟩
    rintro _ ⟨⟩
    refine ⟨Opcode.ofByte?_byte op, rfl, ?_⟩
    -- Neither the key's length nor the sum of all lengths wraps around.
    have hnarrow : (UInt16.ofNat key.length).toNat = key.length := by
      rw [UInt16.toNat_ofNat']
      exact Nat.mod_eq_of_lt (by omega)
    have hsum : (UInt32.ofNat (value.length + width.toNat + (UInt16.ofNat key.length).toNat)).toNat =
        extras.length + key.length + value.length := by
      rw [UInt32.toNat_ofNat', hnarrow, hextras, Nat.mod_eq_of_lt (by omega)]
      omega
    exact laid_of_segments rfl hextras hnarrow hsum

theorem getRequest_builds (op : Opcode) (key : Octets) (echo : UInt32) :
    Builds op echo [] key [] (getRequest op key echo) := by
  have hextras : (0 : UInt8).toNat = ([] : Octets).length := rfl
  apply builds_of_checked hextras
  rw [List.nil_append, List.append_nil, getRequest]
  cases checkedKeyLength 0 key [] <;> rfl

theorem setRequest_builds (op : Opcode) (key value : Octets) (flags expiry echo : UInt32) :
    Builds op echo (Octets.bigEndian 4 flags.toNat ++ Octets.bigEndian 4 expiry.toNat) key value
      (setRequest op key value flags expiry echo) := by
  have hextras : setExtrasLength.toNat =
      (Octets.bigEndian 4 flags.toNat ++ Octets.bigEndian 4 expiry.toNat).length := by
    rw [List.length_append, Octets.length_bigEndian, Octets.length_bigEndian]
    rfl
  apply builds_of_checked hextras
  rw [setRequest]
  cases checkedKeyLength setExtrasLength key value <;> rfl

/-- No request is built with a header that does not fit it.

* A lookup is built exactly if a header can hold the length of its key, a request to store exactly if a header can
  besides hold the length of the whole body.
* What is refused is refused as an invalid value.  What is built has the command and the echo that were asked for, a
  header that measures its segments exactly, and is cut off any stream as it is. -/
theorem requests_laid_out (op : Opcode) (key value : Octets) (flags expiry echo : UInt32) :
    ((∃ p, getRequest op key echo = .ok p) ↔ key.length ≤ 65535) ∧
      ((∃ p, setRequest op key value flags expiry echo = .ok p) ↔
        key.length ≤ 65535 ∧ 8 + key.length + value.length ≤ 4294967295) ∧
      Builds op echo [] key [] (getRequest op key echo) ∧
      Builds op echo (Octets.bigEndian 4 flags.toNat ++ Octets.bigEndian 4 expiry.toNat) key value
        (setRequest op key value flags expiry echo) := by
  have hget := getRequest_builds op key echo
  have hset := setRequest_builds op key value flags expiry echo
  refine ⟨?_, ?_, hget, hset⟩
  · rw [hget.ok_iff]
    constructor
    · rintro ⟨hkey, -⟩
      exact hkey
    · intro hkey
      refine ⟨hkey, ?_⟩
      rw [List.length_nil]
      omega
  · rw [hset.ok_iff, List.length_append, Octets.length_bigEndian, Octets.length_bigEndian]

example : (setRequest .set [97] [1, 2, 3] 7 60 9).map (·.body) =
    .ok [0, 0, 0, 7, 0, 0, 0, 60, 97, 1, 2, 3] := rfl

end ShardedCache.Packet
