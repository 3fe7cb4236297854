import ShardedCache.Proofs.Service.Responses

namespace ShardedCache.Service

open Packet (Parts)

variable {request : Packet} {op : Opcode} {now : Nat} {store : Store} {extras key value : Octets}

theorem put_of_words (op : Opcode) (now : Nat) (store : Store) (h : request.Parts extras key value)
    (height : 8 ≤ request.header.extrasLength.toNat) :
    ∃ flags expiry, extras.word? 0 = some flags ∧ extras.word? 4 = some expiry ∧
      put op request now store =
        (if op = .setQ then .silent else .packet { header := request.header.responseTo },
          store.set key (Item.pack ⟨value, flags⟩) expiry now) := by
  have hroom : 8 ≤ extras.length := by
    rw [h.length_extras]
    exact height
  exact ⟨_, _, Octets.word?_of_le (by omega), Octets.word?_of_le (by omega), put_of_parts h height⟩

theorem lookupResponse_measures (op : Opcode) (hkey : request.key? = some key) (status : Status) (flags : UInt32)
    (value : Octets) :
    let response := lookupResponse request.header status flags (shown op key) value
    response.header.keyLength.toNat = (shown op key).length ∧ response.key? = some (shown op key) := by
  have hshort : (shown op key).length < 65536 :=
    Nat.lt_of_le_of_lt (length_shown_le op key) (Packet.length_key?_lt hkey)
  exact ⟨keyLength_lookupResponse hshort, (parts_lookupResponse hshort).key_eq⟩

/-- A lookup of a key fails because of what is stored, says nothing if it may, or is answered with a response that holds
the key as its header measures it. -/
theorem lookup_cases (op : Opcode) (now : Nat) (store : Store) (hkey : request.key? = some key) :
    (∃ blob fault, (store.get key now).1 = some blob ∧ Item.unpack blob = .error fault ∧
        (lookup op request now store).1 = .error fault) ∨
      ((store.get key now).1 = none ∧ op.isQuiet = true ∧ (lookup op request now store).1 = .ok .silent) ∨
      ∃ response, (lookup op request now store).1 = .ok (.packet response) ∧
        response.header.keyLength.toNat = (shown op key).length ∧ response.key? = some (shown op key) := by
  have hmeasures := lookupResponse_measures op hkey
  rw [lookup_of_some hkey]
  cases (store.get key now).1 with
  | none =>
    by_cases hquiet : op.isQuiet = true
    · refine .inr (.inl ⟨rfl, hquiet, ?_⟩)
      simp only [hquiet, if_true]
    · refine .inr (.inr ⟨_, ?_, hmeasures .keyNotFound 0 []⟩)
      simp only [hquiet, if_false, Bool.false_eq_true]
  | some blob =>
    cases hunpack : Item.unpack blob with
    | error fault =>
      refine .inl ⟨blob, fault, rfl, hunpack, ?_⟩
      simp only [hunpack]
      rfl
    | ok item =>
      refine .inr (.inr ⟨_, ?_, hmeasures .noError item.flags item.value⟩)
      simp only [hunpack]
      rfl

/-- The segments of a packet are its body cut in three, or are refused together, whatever its header and its body are.

* There are extras exactly if they end within the body.  There is a key exactly if there is a value, which is so exactly
  if extras and key end within the body.  Then the extras are there too, and the three are the body in its order, with the
  lengths that the header gives them.
* A header that holds the length of the body leaves a length to the value exactly if there is a key, and that length is
  the value's.
* A request to store is refused, and stores nothing, unless its extras are announced as eight octets or more and all three
  segments are there.  If so, each of the first eight octets of the extras is there, and what is stored are the words
  that they write.
* The length of a key survives being narrowed.  A lookup fails because of what is stored, says nothing if it may, or is
  answered with a response that holds the key as its header measures it. -/
theorem segments_agree (p : Packet) :
    (p.extras?.isSome = true ↔ p.header.extrasLength.toNat ≤ p.body.length) ∧
      (p.key?.isSome = true ↔ p.value?.isSome = true) ∧
      (p.value?.isSome = true ↔
        p.header.extrasLength.toNat + p.header.keyLength.toNat ≤ p.body.length) ∧
      (p.key?.isSome = true → ∃ extras key value, p.Parts extras key value) ∧
      (p.header.totalBody.toNat = p.body.length →
        (p.header.valueLength? = none ↔ p.key? = none) ∧
          ∀ value, p.value? = some value → p.header.valueLength? = some value.length) ∧
      (∀ op now store,
        if 8 ≤ p.header.extrasLength.toNat ∧ p.extras?.isSome = true ∧ p.key?.isSome = true ∧
            p.value?.isSome = true then
          ∃ extras key value flags expiry, p.Parts extras key value ∧
            (∀ place < 8, ∃ octet, extras[place]? = some octet) ∧
            extras.word? 0 = some flags ∧ extras.word? 4 = some expiry ∧
            put op p now store =
              (if op = .setQ then .silent else .packet { header := p.header.responseTo },
                store.set key (Item.pack ⟨value, flags⟩) expiry now)
        else put op p now store = (.invalidArguments op p.header, store)) ∧
      ∀ op now store key, p.key? = some key →
        (UInt16.ofNat key.length).toNat = key.length ∧
          ((∃ blob fault, (store.get key now).1 = some blob ∧ Item.unpack blob = .error fault ∧
              (lookup op p now store).1 = .error fault) ∨
            ((store.get key now).1 = none ∧ op.isQuiet = true ∧
              (lookup op p now store).1 = .ok .silent) ∨
            ∃ response, (lookup op p now store).1 = .ok (.packet response) ∧
              response.header.keyLength.toNat = (shown op key).length ∧
              response.key? = some (shown op key)) := by
  have htogether : p.key?.isSome = true ↔ p.value?.isSome = true :=
    Packet.isSome_key?.trans Packet.isSome_value?.symm
  refine ⟨Packet.isSome_extras?, htogether, Packet.isSome_value?, Packet.exists_parts, ?_, ?_, ?_⟩
  · intro hcomplete
    rw [Packet.valueLength?_eq hcomplete]
    constructor
    · rw [Option.map_eq_none_iff, ← Option.not_isSome_iff_eq_none, ← Option.not_isSome_iff_eq_none]
      exact not_congr htogether.symm
    · intro value hvalue
      rw [hvalue, Option.map_some]
  · intro op now store
    split
    · rename_i hwhole
      obtain ⟨height, -, hkey, -⟩ := hwhole
      obtain ⟨extras, key, value, hparts⟩ := Packet.exists_parts hkey
      obtain ⟨flags, expiry, hflags, hexpiry, hput⟩ := put_of_words op now store hparts height
      refine ⟨extras, key, value, flags, expiry, hparts, ?_, hflags, hexpiry, hput⟩
      intro place hplace
      have hin : place < extras.length := by
        rw [hparts.length_extras]
        omega
      exact ⟨extras[place], List.getElem?_eq_getElem hin⟩
    · rename_i hmissing
      apply put_of_missing
      rintro ⟨height, hfront⟩
      have hextras : p.header.extrasLength.toNat ≤ p.body.length := by omega
      exact hmissing ⟨height, Packet.isSome_extras?.mpr hextras, Packet.isSome_key?.mpr hfront,
        Packet.isSome_value?.mpr hfront⟩
  · intro op now store key hkey
    have hshort : key.length < 65536 := Packet.length_key?_lt hkey
    refine ⟨?_, lookup_cases op now store hkey⟩
    rw [UInt16.toNat_ofNat']
    exact Nat.mod_eq_of_lt hshort

/-- A request to store with an octet of extras to spare, and what a lookup under its header is answered. -/
theorem segments_agree_spare_octet :
    let p : Packet :=
      ⟨{ magic := 0x80, opcode := 0x01, extrasLength := 9, keyLength := 1, totalBody := 12 },
        [0, 0, 0, 7, 0, 0, 0, 10, 255, 107, 118, 119]⟩
    p.key?.isSome = true ∧ (∃ extras key value, p.Parts extras key value) ∧
      p.header.totalBody.toNat = p.body.length ∧ p.header.valueLength? = some 2 ∧
      put .set p 5 {} =
        (.packet { header := p.header.responseTo }, Store.set {} [107] (Item.pack ⟨[118, 119], 7⟩) 10 5) ∧
      ∃ response, (lookup .getK p 5 {}).1 = .ok (.packet response) ∧
        response.header.keyLength.toNat = 1 ∧ response.key? = some [107] := by
  intro p
  obtain ⟨-, -, -, hparts, hlength, hput, hlookup⟩ := segments_agree p
  refine ⟨rfl, hparts rfl, rfl, (hlength rfl).2 _ rfl, ?_, ?_⟩
  · have hguard : 8 ≤ p.header.extrasLength.toNat ∧ p.extras?.isSome = true ∧ p.key?.isSome = true ∧
        p.value?.isSome = true := by decide
    have hstored := hput .set 5 {}
    rw [if_pos hguard] at hstored
    obtain ⟨extras, key, value, flags, expiry, hwhole, -, hflags, hexpiry, hstored⟩ := hstored
    obtain rfl : [0, 0, 0, 7, 0, 0, 0, 10, 255] = extras := Option.some.inj hwhole.extras_eq
    obtain rfl : [107] = key := Option.some.inj hwhole.key_eq
    obtain rfl : [118, 119] = value := Option.some.inj hwhole.value_eq
    obtain rfl : 7 = flags := Option.some.inj hflags
    obtain rfl : 10 = expiry := Option.some.inj hexpiry
    exact hstored
  · obtain ⟨-, houtcome⟩ := hlookup .getK 5 {} [107] rfl
    rcases houtcome with ⟨blob, fault, hfound, -⟩ | ⟨-, hquiet, -⟩ | hresponse
    · cases hfound
    · cases hquiet
    · exact hresponse

/-- Extras that end within the body do not make up for a key that does not. -/
example :
    let p : Packet := ⟨{ opcode := 0x00, extrasLength := 2, keyLength := 10, totalBody := 3 }, [1, 2, 3]⟩
    p.extras? = some [1, 2] ∧ p.key? = none ∧ p.value? = none ∧ p.header.valueLength? = none := by decide

end ShardedCache.Service
