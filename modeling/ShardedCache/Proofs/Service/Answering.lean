import ShardedCache.Proofs.Packet.Segments
import ShardedCache.Proofs.Store.Entries
import ShardedCache.Service

namespace ShardedCache

namespace Opcode

def isLookup : Opcode → Bool
  | get | getQ | getK | getKQ => true
  | _ => false

def isPut : Opcode → Bool
  | set | setQ => true
  | _ => false

end Opcode

structure Deposit where
  key : Octets
  item : Item
  expiry : UInt32
deriving DecidableEq, Repr

namespace Packet

/-- What the request stores if it asks for that: flags and expiry open extras of at least eight octets, and
the lengths of extras and key stay within the body. -/
def deposit? (p : Packet) : Option Deposit :=
  let extras := p.header.extrasLength.toNat
  let front := extras + p.header.keyLength.toNat
  if 8 ≤ extras ∧ front ≤ p.body.length then
    some
      { key := (p.body.drop extras).take p.header.keyLength.toNat
        item := {
          value := p.body.drop front
          flags := UInt32.ofNat (Octets.toNat (p.body.take 4)) }
        expiry := UInt32.ofNat (Octets.toNat ((p.body.drop 4).take 4)) }
  else none

/-- What the request stores, which is nothing unless it asks for that and is accepted. -/
def stores? (p : Packet) : Option Deposit :=
  if p.header.command?.any (·.isPut) then p.deposit? else none

theorem parts_of_deposit? {p : Packet} {d : Deposit} (h : p.deposit? = some d) :
    ∃ extras, 8 ≤ extras.length ∧ p.Parts extras d.key d.item.value := by
  rw [deposit?, Option.ite_none_right_eq_some] at h
  obtain ⟨⟨height, hfront⟩, hdeposit⟩ := h
  obtain rfl := Option.some.inj hdeposit
  have hparts := parts_of_le hfront
  refine ⟨_, ?_, hparts⟩
  rw [hparts.length_extras]
  exact height

theorem key?_of_deposit? {p : Packet} {d : Deposit} (h : p.deposit? = some d) :
    p.key? = some d.key := by
  obtain ⟨extras, -, hparts⟩ := parts_of_deposit? h
  exact hparts.key_eq

theorem value?_of_deposit? {p : Packet} {d : Deposit} (h : p.deposit? = some d) :
    p.value? = some d.item.value := by
  obtain ⟨extras, -, hparts⟩ := parts_of_deposit? h
  exact hparts.value_eq

theorem length_of_deposit? {p : Packet} {d : Deposit} (h : p.deposit? = some d) :
    8 + d.key.length + d.item.value.length ≤ p.body.length := by
  obtain ⟨extras, height, hparts⟩ := parts_of_deposit? h
  rw [← hparts.body_eq, List.length_append, List.length_append]
  omega

theorem deposit?_of_stores? {p : Packet} {d : Deposit} (h : p.stores? = some d) :
    p.deposit? = some d := by
  rw [stores?] at h
  split at h
  · exact h
  · cases h

end Packet

namespace Service

open Store (Stocked)

def declined (request : Packet) : Reply :=
  let notSupported := Reply.status request.header .notSupported
  match request.header.command? with
  | some .quitQ => .close
  | some .quit => notSupported.andClose
  | some op => if op.isQuiet then .silent else notSupported
  | none => notSupported

variable {request : Packet} {op : Opcode} {now : Nat} {store other : Store} {extras key value : Octets}

theorem answer_of_lookup (h : request.header.command? = some op) (hop : op.isLookup = true) :
    answer request now store = lookup op request now store := by
  cases op <;> simp [Opcode.isLookup] at hop <;> simp only [answer, h]

theorem answer_of_put (h : request.header.command? = some op) (hop : op.isPut = true) :
    answer request now store = (.ok (put op request now store).1, (put op request now store).2) := by
  cases op <;> simp [Opcode.isPut] at hop <;> simp only [answer, h]

theorem answer_of_other (h : ∀ op, request.header.command? = some op →
      op.isLookup = false ∧ op.isPut = false) :
    answer request now store = (.ok (declined request), store) := by
  match hcommand : request.header.command? with
  | none => simp only [answer, declined, hcommand]
  | some op =>
    obtain ⟨hlookup, hput⟩ := h op hcommand
    cases op <;> simp [Opcode.isLookup, Opcode.isPut] at hlookup hput <;>
      simp only [answer, declined, hcommand]

theorem kind_cases (request : Packet) :
    (∃ op, request.header.command? = some op ∧ op.isLookup = true) ∨
      (∃ op, request.header.command? = some op ∧ op.isPut = true) ∨
      ∀ op, request.header.command? = some op → op.isLookup = false ∧ op.isPut = false := by
  match request.header.command? with
  | none => exact .inr (.inr nofun)
  | some op =>
    by_cases hlookup : op.isLookup = true
    · exact .inl ⟨op, rfl, hlookup⟩
    by_cases hput : op.isPut = true
    · exact .inr (.inl ⟨op, rfl, hput⟩)
    · refine .inr (.inr ?_)
      rintro _ ⟨⟩
      exact ⟨Bool.eq_false_iff.mpr hlookup, Bool.eq_false_iff.mpr hput⟩

theorem lookup_of_none (h : request.key? = none) :
    lookup op request now store = (.ok (.invalidArguments op request.header), store) := by
  rw [lookup, h]

def shown (op : Opcode) (key : Octets) : Octets :=
  if op.returnsKey then key else []

theorem lookup_of_some (h : request.key? = some key) :
    lookup op request now store =
      (match (store.get key now).1 with
        | some blob =>
          (Item.unpack blob).map fun item =>
            .packet (lookupResponse request.header .noError item.flags (shown op key) item.value)
        | none =>
          .ok (if op.isQuiet then .silent
            else .packet (lookupResponse request.header .keyNotFound 0 (shown op key) [])),
        (store.get key now).2) := by
  simp only [lookup, h]
  match store.get key now with
  | (none, after) =>
    by_cases hquiet : op.isQuiet = true
    · simp only [hquiet, if_true]
    · simp only [hquiet, if_false, Bool.false_eq_true]
      rfl
  | (some blob, after) =>
    dsimp only
    cases Item.unpack blob <;> rfl

theorem put_of_parts (h : request.Parts extras key value) (height : 8 ≤ request.header.extrasLength.toNat) :
    put op request now store =
      (if op = .setQ then .silent else .packet { header := request.header.responseTo },
        store.set key
          (Item.pack { value, flags := UInt32.ofNat (Octets.toNat (extras.take 4)) })
          (UInt32.ofNat (Octets.toNat ((extras.drop 4).take 4))) now) := by
  have hlong : ¬ request.header.extrasLength < Packet.setExtrasLength := by
    rw [Packet.extrasLength_lt_iff]
    omega
  rw [put, if_neg hlong, h.extras_eq, h.key_eq, h.value_eq]
  rfl

theorem put_of_missing (h : ¬ (8 ≤ request.header.extrasLength.toNat ∧
      request.header.extrasLength.toNat + request.header.keyLength.toNat ≤ request.body.length)) :
    put op request now store = (.invalidArguments op request.header, store) := by
  rw [put]
  split
  · rfl
  · rename_i hlong
    rw [Packet.extrasLength_lt_iff, Nat.not_lt] at hlong
    have hkey : request.key? = none :=
      Option.not_isSome_iff_eq_none.mp fun hsome => h ⟨hlong, Packet.isSome_key?.mp hsome⟩
    rw [hkey]
    split
    · rename_i hsome _
      cases hsome
    · rfl

theorem put_eq (op : Opcode) (request : Packet) (now : Nat) (store : Store) :
    put op request now store =
      match request.deposit? with
      | some d =>
        (if op = .setQ then .silent else .packet { header := request.header.responseTo },
          store.set d.key d.item.pack d.expiry now)
      | none => (.invalidArguments op request.header, store) := by
  by_cases hwhole : 8 ≤ request.header.extrasLength.toNat ∧
      request.header.extrasLength.toNat + request.header.keyLength.toNat ≤ request.body.length
  · have hflags : min 4 request.header.extrasLength.toNat = 4 := by omega
    have hexpiry : min 4 (request.header.extrasLength.toNat - 4) = 4 := by omega
    rw [put_of_parts (Packet.parts_of_le hwhole.2) hwhole.1, Packet.deposit?, if_pos hwhole]
    simp only [List.take_take, hflags, List.drop_take, hexpiry]
  · rw [put_of_missing hwhole, Packet.deposit?, if_neg hwhole]

/-- A request is answered from the entry of its own key, and what becomes of that entry depends on no
other. -/
theorem answer_local (request : Packet) (now : Nat) {store other : Store}
    (h : ∀ key, request.key? = some key → store.find? key = other.find? key) :
    (answer request now store).1 = (answer request now other).1 ∧
      ∀ key, request.key? = some key →
        (answer request now store).2.find? key = (answer request now other).2.find? key := by
  rcases kind_cases request with ⟨op, hcommand, hop⟩ | ⟨op, hcommand, hop⟩ | hother
  · rw [answer_of_lookup hcommand hop, answer_of_lookup hcommand hop]
    match hkey : request.key? with
    | none =>
      rw [lookup_of_none hkey, lookup_of_none hkey]
      exact ⟨rfl, nofun⟩
    | some key =>
      have hentry := h key hkey
      rw [lookup_of_some hkey, lookup_of_some hkey, Store.fst_get, Store.fst_get, hentry]
      refine ⟨rfl, ?_⟩
      rintro _ ⟨⟩
      rw [Store.find?_get, Store.find?_get, hentry]
  · rw [answer_of_put hcommand hop, answer_of_put hcommand hop, put_eq, put_eq]
    match hdeposit : request.deposit? with
    | none => exact ⟨rfl, h⟩
    | some d =>
      refine ⟨rfl, ?_⟩
      intro key hkey
      have hsame : key = d.key := Option.some.inj (hkey.symm.trans (Packet.key?_of_deposit? hdeposit))
      simp only [Store.find?_set, hsame, if_true]
  · rw [answer_of_other hother, answer_of_other hother]
    exact ⟨rfl, h⟩

/-- What a request can do to the store: nothing, look its key up, or store what it asks for. -/
theorem snd_answer_cases (request : Packet) (now : Nat) (store : Store) :
    request.stores? = none ∧ (answer request now store).2 = store ∨
      (∃ key, request.key? = some key ∧ request.stores? = none ∧
        (answer request now store).2 = (store.get key now).2) ∨
      ∃ d, request.stores? = some d ∧
        (answer request now store).2 = store.set d.key d.item.pack d.expiry now := by
  have hnone (hput : ∀ op, request.header.command? = some op → op.isPut = false) :
      request.stores? = none := by
    rw [Packet.stores?, if_neg]
    cases hcommand : request.header.command? with
    | none => simp
    | some op => simp [hput op hcommand]
  rcases kind_cases request with ⟨op, hcommand, hop⟩ | ⟨op, hcommand, hop⟩ | hother
  · have hput : op.isPut = false := by cases op <;> first | rfl | cases hop
    have hstores : request.stores? = none := by
      apply hnone
      rintro other hother
      obtain rfl := Option.some.inj (hcommand.symm.trans hother)
      exact hput
    rw [answer_of_lookup hcommand hop]
    cases hkey : request.key? with
    | none => exact .inl ⟨hstores, by rw [lookup_of_none hkey]⟩
    | some key => exact .inr (.inl ⟨key, rfl, hstores, by rw [lookup_of_some hkey]⟩)
  · have hstores : request.stores? = request.deposit? := by
      rw [Packet.stores?, hcommand, if_pos (by simpa using hop)]
    rw [answer_of_put hcommand hop, put_eq, hstores]
    cases request.deposit? with
    | none => exact .inl ⟨rfl, rfl⟩
    | some d => exact .inr (.inr ⟨d, rfl, rfl⟩)
  · refine .inl ⟨hnone fun op hcommand => (hother op hcommand).2, ?_⟩
    rw [answer_of_other hother]

theorem answer_frame (h : request.key? ≠ some key) :
    (answer request now store).2.find? key = store.find? key := by
  rcases snd_answer_cases request now store with
    ⟨-, hafter⟩ | ⟨own, hkey, -, hafter⟩ | ⟨d, hstores, hafter⟩
  · rw [hafter]
  · have hne : key ≠ own := by
      rintro rfl
      exact h hkey
    rw [hafter, Store.find?_get, if_neg fun hboth => hne hboth.1]
  · have hne : key ≠ d.key := by
      rintro rfl
      exact h (Packet.key?_of_deposit? (Packet.deposit?_of_stores? hstores))
    rw [hafter, Store.find?_set, if_neg hne]

theorem answer_stocked {bound : Nat} (hbody : request.body.length ≤ bound) (h : store.Stocked bound) :
    (answer request now store).2.Stocked bound := by
  rcases snd_answer_cases request now store with
    ⟨-, hafter⟩ | ⟨key, -, -, hafter⟩ | ⟨d, hstores, hafter⟩
  · rw [hafter]
    exact h
  · rw [hafter]
    exact h.get key now
  · have hlen := Packet.length_of_deposit? (Packet.deposit?_of_stores? hstores)
    rw [hafter]
    exact h.set (Nat.le_trans hlen hbody) d.expiry now

theorem family_of_answer {fault : Fault} (h : (answer request now store).1 = .error fault) :
    fault.family = .value := by
  rcases kind_cases request with ⟨op, hcommand, hop⟩ | ⟨op, hcommand, hop⟩ | hother
  · rw [answer_of_lookup hcommand hop] at h
    cases hkey : request.key? with
    | none =>
      rw [lookup_of_none hkey] at h
      cases h
    | some key =>
      rw [lookup_of_some hkey] at h
      cases hget : (store.get key now).1 with
      | none =>
        rw [hget] at h
        cases h
      | some blob =>
        rw [hget] at h
        cases hunpack : Item.unpack blob with
        | ok item =>
          simp only [hunpack] at h
          cases h
        | error cause =>
          simp only [hunpack] at h
          obtain rfl := Except.error.inj h
          exact Item.family_of_unpack hunpack
  · rw [answer_of_put hcommand hop] at h
    cases h
  · rw [answer_of_other hother] at h
    cases h

end Service

end ShardedCache
