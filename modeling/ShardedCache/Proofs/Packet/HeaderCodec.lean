import ShardedCache.Packet

namespace ShardedCache

namespace Octets

theorem bigEndian_toNat_of_length {bs : Octets} {width : Nat} (h : bs.length = width) :
    bigEndian width (toNat bs) = bs := by
  rw [← h]
  exact bigEndian_toNat bs

theorem toNat_lt_of_length {bs : Octets} {width : Nat} (h : bs.length = width) :
    toNat bs < capacity width := by
  rw [← h]
  exact toNat_lt bs

theorem slice?_append (front segment back : Octets) :
    slice? (front ++ (segment ++ back)) front.length segment.length = some segment := by
  have hlen : front.length + segment.length ≤ (front ++ (segment ++ back)).length := by
    simp only [List.length_append]
    omega
  rw [slice?, if_pos hlen, List.drop_left, List.take_left]

theorem slice?_append_of_le {front : Octets} {start : Nat} (h : front.length ≤ start) (bs : Octets)
    (length : Nat) : slice? (front ++ bs) start length = slice? bs (start - front.length) length := by
  have hfits : start + length ≤ (front ++ bs).length ↔ start - front.length + length ≤ bs.length := by
    rw [List.length_append]
    omega
  simp only [slice?, hfits, List.drop_append, List.drop_eq_nil_of_le h, List.nil_append]

/-- A field is read at its place. -/
@[simp] theorem slice?_bigEndian_append (width n : Nat) (back : Octets) :
    slice? (bigEndian width n ++ back) 0 width = some (bigEndian width n) := by
  simpa using slice?_append [] (bigEndian width n) back

theorem slice?_eq_some_iff {bs segment : Octets} {start length : Nat} :
    slice? bs start length = some segment ↔
      start + length ≤ bs.length ∧ segment = (bs.drop start).take length := by
  rw [slice?]
  split
  · rename_i h
    simp only [Option.some.injEq, h, true_and]
    exact eq_comm
  · rename_i h
    simp [h]

theorem slice?_eq_none_iff {bs : Octets} {start length : Nat} :
    slice? bs start length = none ↔ bs.length < start + length := by
  rw [slice?]
  split
  · rename_i h
    simp [Nat.not_lt.mpr h]
  · rename_i h
    simp [Nat.lt_of_not_le h]

theorem length_of_slice? {bs segment : Octets} {start length : Nat}
    (h : slice? bs start length = some segment) : segment.length = length := by
  obtain ⟨hlen, rfl⟩ := slice?_eq_some_iff.mp h
  rw [List.length_take, List.length_drop]
  omega

end Octets

namespace Header

theorem exists_encode_append {bs : Octets} (h : size ≤ bs.length) :
    ∃ header : Header, ∃ rest, bs = header.encode ++ rest := by
  -- Nine cuts in the order of the fields; each is written back by its own number.
  have cut (bs : Octets) (width : Nat) (h : width ≤ bs.length) :
      ∃ field rest : Octets, bs = field ++ rest ∧ field.length = width ∧
        rest.length = bs.length - width :=
    ⟨bs.take width, bs.drop width, (List.take_append_drop width bs).symm,
      by rw [List.length_take]; omega, List.length_drop ..⟩
  have hsize : 24 ≤ bs.length := h
  obtain ⟨magic, bs1, rfl, hmagic, h1⟩ := cut bs 1 (by omega)
  obtain ⟨opcode, bs2, rfl, hopcode, h2⟩ := cut bs1 1 (by omega)
  obtain ⟨keyLength, bs3, rfl, hkey, h3⟩ := cut bs2 2 (by omega)
  obtain ⟨extrasLength, bs4, rfl, hextras, h4⟩ := cut bs3 1 (by omega)
  obtain ⟨dataType, bs5, rfl, htype, h5⟩ := cut bs4 1 (by omega)
  obtain ⟨status, bs6, rfl, hstatus, h6⟩ := cut bs5 2 (by omega)
  obtain ⟨totalBody, bs7, rfl, htotal, h7⟩ := cut bs6 4 (by omega)
  obtain ⟨echo, bs8, rfl, hecho, h8⟩ := cut bs7 4 (by omega)
  obtain ⟨cas, rest, rfl, hcas, -⟩ := cut bs8 8 (by omega)
  refine ⟨{ magic := UInt8.ofNat magic.toNat, opcode := UInt8.ofNat opcode.toNat,
            keyLength := UInt16.ofNat keyLength.toNat,
            extrasLength := UInt8.ofNat extrasLength.toNat,
            dataType := UInt8.ofNat dataType.toNat, status := UInt16.ofNat status.toNat,
            totalBody := UInt32.ofNat totalBody.toNat, echo := UInt32.ofNat echo.toNat,
            cas := UInt64.ofNat cas.toNat }, rest, ?_⟩
  have l1 := Octets.toNat_lt_of_length hmagic
  have l2 := Octets.toNat_lt_of_length hopcode
  have l3 := Octets.toNat_lt_of_length hkey
  have l4 := Octets.toNat_lt_of_length hextras
  have l5 := Octets.toNat_lt_of_length htype
  have l6 := Octets.toNat_lt_of_length hstatus
  have l7 := Octets.toNat_lt_of_length htotal
  have l8 := Octets.toNat_lt_of_length hecho
  have l9 := Octets.toNat_lt_of_length hcas
  simp only [Octets.capacity_one, Octets.capacity_two, Octets.capacity_four,
    Octets.capacity_eight] at l1 l2 l3 l4 l5 l6 l7 l8 l9
  simp only [encode, UInt8.toNat_ofNat', UInt16.toNat_ofNat', UInt32.toNat_ofNat',
    UInt64.toNat_ofNat', Nat.reducePow, Nat.mod_eq_of_lt, l1, l2, l3, l4, l5, l6, l7, l8, l9,
    Octets.bigEndian_toNat_of_length, hmagic, hopcode, hkey, hextras, htype, hstatus, htotal, hecho,
    hcas, List.append_assoc]

@[simp] theorem peekTotalBody?_encode_append (header : Header) (rest : Octets) :
    peekTotalBody? (header.encode ++ rest) = some header.totalBody := by
  have hvalue : (Octets.bigEndian 4 header.totalBody.toNat).toNat = header.totalBody.toNat :=
    Octets.toNat_bigEndian_of_lt header.totalBody.toNat_lt
  simp [peekTotalBody?, encode, Octets.slice?_append_of_le, hvalue]

@[simp] theorem peekStatus?_encode_append (header : Header) (rest : Octets) :
    peekStatus? (header.encode ++ rest) = some header.status := by
  have hvalue : (Octets.bigEndian 2 header.status.toNat).toNat = header.status.toNat :=
    Octets.toNat_bigEndian_of_lt header.status.toNat_lt
  simp [peekStatus?, encode, Octets.slice?_append_of_le, hvalue]

@[simp] theorem headD_encode_append (header : Header) (rest : Octets) (b : UInt8) :
    (header.encode ++ rest).headD b = header.magic := by
  simp [encode, Octets.bigEndian, Octets.capacity]

theorem encode_injective {a b : Header} (h : a.encode = b.encode) : a = b := by
  have hdecode := decode_encode a []
  rw [h, decode_encode] at hdecode
  exact (Except.ok.inj (Prod.mk.inj hdecode).1).symm

theorem decode_of_short {bs : Octets} (h : bs.length < size) :
    decode bs = (.error (.framing (.shortHeader bs.length)), bs) := by
  rw [decode, if_pos h]

/-- Decoding takes off what encoding has put on, and nothing else. -/
theorem decode_eq_ok_iff {bs rest : Octets} {header : Header} :
    decode bs = (.ok header, rest) ↔ bs = header.encode ++ rest := by
  constructor
  · intro h
    have hsize : size ≤ bs.length := by
      apply Nat.le_of_not_lt
      intro hshort
      rw [decode_of_short hshort] at h
      cases (Prod.mk.inj h).1
    obtain ⟨front, tail, rfl⟩ := exists_encode_append hsize
    rw [decode_encode] at h
    obtain ⟨hheader, rfl⟩ := Prod.mk.inj h
    rw [Except.ok.inj hheader]
  · rintro rfl
    exact decode_encode header rest

theorem peekTotalBody?_eq_none_iff {bs : Octets} : peekTotalBody? bs = none ↔ bs.length < 12 := by
  rw [peekTotalBody?, Option.map_eq_none_iff, Octets.slice?_eq_none_iff]

theorem peekStatus?_eq_none_iff {bs : Octets} : peekStatus? bs = none ↔ bs.length < 8 := by
  rw [peekStatus?, Option.map_eq_none_iff, Octets.slice?_eq_none_iff]

/-- Headers and strings of 24 octets stand for each other.

* A header that is encoded is decoded again, whatever follows it, and what follows is left.
* Any string that is long enough is decoded.  Exactly 24 octets are taken off it, which are the encoding of what was
  decoded, and the two fields that can be looked at in a raw header are those of the decoded one.
* A shorter string violates the format and is left as it is.
* Of a string that ends too early for them the two fields are not there. -/
theorem codec_exact :
    (∀ header rest, header.encode.length = 24 ∧ decode (header.encode ++ rest) = (.ok header, rest)) ∧
      (∀ bs : Octets, 24 ≤ bs.length → ∃ header,
        decode bs = (.ok header, bs.drop 24) ∧ header.encode = bs.take 24 ∧
          peekTotalBody? bs = some header.totalBody ∧ peekStatus? bs = some header.status) ∧
      (∀ bs : Octets, bs.length < 24 → ∃ fault,
        decode bs = (.error fault, bs) ∧ fault.family = .framing) ∧
      ∀ bs : Octets, (peekTotalBody? bs = none ↔ bs.length < 12) ∧
        (peekStatus? bs = none ↔ bs.length < 8) := by
  refine ⟨?_, ?_, ?_, ?_⟩
  · intro header rest
    exact ⟨length_encode header, decode_encode header rest⟩
  · intro bs hsize
    obtain ⟨header, rest, rfl⟩ := exists_encode_append hsize
    have htake : (header.encode ++ rest).take 24 = header.encode := List.take_left' (length_encode header)
    have hdrop : (header.encode ++ rest).drop 24 = rest := List.drop_left' (length_encode header)
    refine ⟨header, ?_, htake.symm, peekTotalBody?_encode_append header rest,
      peekStatus?_encode_append header rest⟩
    rw [hdrop, decode_eq_ok_iff]
  · intro bs hshort
    exact ⟨_, decode_of_short hshort, rfl⟩
  · intro bs
    exact ⟨peekTotalBody?_eq_none_iff, peekStatus?_eq_none_iff⟩

/-- A header whose fields all differ, in a string that goes on behind it, and what is left of the string when its last
two octets are missing. -/
theorem codec_exact_distinct_fields :
    let header : Header :=
      { magic := 0x80, opcode := 0x01, keyLength := 0x0203, extrasLength := 0x04, dataType := 0x05, status := 0x0607,
        totalBody := 0x08090a0b, echo := 0x0c0d0e0f, cas := 0xf011121314151617 }
    let bs : Octets :=
      [0x80, 1, 2, 3, 4, 5, 6, 7, 8, 9, 10, 11, 12, 13, 14, 15, 0xf0, 17, 18, 19, 20, 21, 22, 23, 24]
    24 ≤ bs.length ∧ decode bs = (.ok header, [24]) ∧ header.encode = bs.take 24 ∧
      peekTotalBody? bs = some 0x08090a0b ∧ peekStatus? bs = some 0x0607 ∧
      (bs.take 23).length < 24 ∧
      ∃ fault, decode (bs.take 23) = (.error fault, bs.take 23) ∧ fault.family = .framing := by
  intro header bs
  have hsize : 24 ≤ bs.length := by decide
  have hshort : (bs.take 23).length < 24 := by decide
  have hbs : bs = header.encode ++ [24] := by decide
  obtain ⟨decoded, hdecode, hencode, htotal, hstatus⟩ := codec_exact.2.1 bs hsize
  have hsame : decoded = header := by
    apply encode_injective
    rw [hencode, hbs]
    rfl
  subst hsame
  exact ⟨hsize, hdecode, hencode, htotal, hstatus, hshort, codec_exact.2.2.1 _ hshort⟩

end Header

end ShardedCache
