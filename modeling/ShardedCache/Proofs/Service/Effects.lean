import ShardedCache.Proofs.Service.History
import ShardedCache.Proofs.Store.Lookups

namespace ShardedCache

/-- The request is a lookup, and its body holds the whole of this key. -/
def Packet.LooksUp (p : Packet) (key : Octets) : Prop :=
  p.header.command?.any (·.isLookup) = true ∧ p.key? = some key

def Reply.status? (reply : Reply) : Option UInt16 :=
  reply.bytes?.bind Header.peekStatus?

structure Confined (request : Packet) (now : Nat) (store : Store) (outcome : Except Fault Reply × Store) :
    Prop where
  others : ∀ key, request.key? ≠ some key → outcome.2.find? key = store.find? key
  /-- An entry changes only if the request stores something there, or looks it up when it is gone. -/
  changed : ∀ key, outcome.2.find? key ≠ store.find? key → request.key? = some key ∧
    ((∃ d, request.stores? = some d) ∨ request.LooksUp key ∧ store.Gone key now)
  stored : ∀ d, request.stores? = some d → request.key? = some d.key ∧
    request.value? = some d.item.value ∧
    ∃ blob, outcome.2.find? d.key = some { blob, deadline := d.deadline? now } ∧
      Item.unpack blob = .ok d.item
  removed : ∀ key, request.LooksUp key → store.Gone key now → outcome.2.find? key = none
  /-- Any failure but a missing key is reported by a request that did nothing. -/
  reported : ∀ reply code, outcome.1 = .ok reply → reply.status? = some code →
    code ≠ Status.noError.code → code ≠ Status.keyNotFound.code → outcome.2 = store
  failed : ∀ fault, outcome.1 = .error fault → outcome.2 = store
  /-- A request fails exactly if it looks up a blob that is not gone and does not open. -/
  fails_iff : ∀ fault, outcome.1 = .error fault ↔
    ∃ key entry, request.LooksUp key ∧ store.find? key = some entry ∧ entry.isExpired now = false ∧
      Item.unpack entry.blob = .error fault

namespace Packet

theorem not_looksUp_of_stores? {p : Packet} {d : Deposit} (h : p.stores? = some d) (key : Octets) :
    ¬ p.LooksUp key := by
  rintro ⟨hlookup, -⟩
  rw [stores?] at h
  cases hcommand : p.header.command? with
  | none => simp [hcommand] at hlookup
  | some op =>
    rw [hcommand] at h hlookup
    cases op <;> simp [Opcode.isLookup, Opcode.isPut] at h hlookup

end Packet

namespace Reply

def Tells (reply : Reply) (status : Status) : Prop :=
  ∀ code, reply.status? = some code → code = status.code

theorem status?_packet (p : Packet) : (Reply.packet p).status? = some p.header.status :=
  Header.peekStatus?_encode_append p.header p.body

theorem silent_tells (status : Status) : Reply.silent.Tells status :=
  nofun

theorem packet_tells {p : Packet} {status : Status} (h : p.header.status = status.code) :
    (Reply.packet p).Tells status := by
  intro code hcode
  rw [status?_packet, h] at hcode
  exact (Option.some.inj hcode).symm

end Reply

theorem Store.evict_of_not_gone {store : Store} {key : Octets} {now : Nat} (h : ¬ store.Gone key now) :
    store.evict key now = store := by
  rw [evict, if_neg fun hany => h (any_isExpired_iff.mp hany)]

namespace Service

variable {request : Packet} {op : Opcode} {now : Nat} {store : Store} {key : Octets}

theorem not_looksUp_of_put (hcommand : request.header.command? = some op) (hop : op.isPut = true)
    (key : Octets) : ¬ request.LooksUp key := by
  rintro ⟨hlookup, -⟩
  rw [hcommand] at hlookup
  cases op <;> simp [Opcode.isLookup, Opcode.isPut] at hop hlookup

theorem not_looksUp_of_other (hother : ∀ op, request.header.command? = some op →
      op.isLookup = false ∧ op.isPut = false) (key : Octets) : ¬ request.LooksUp key := by
  rintro ⟨hlookup, -⟩
  cases hcommand : request.header.command? with
  | none => simp [hcommand] at hlookup
  | some op => simp [hcommand, (hother op hcommand).1] at hlookup

theorem fst_lookup_of_gone (op : Opcode) (hkey : request.key? = some key) (h : store.Gone key now) :
    ∃ reply, (lookup op request now store).1 = .ok reply ∧ reply.Tells .keyNotFound := by
  obtain ⟨entry, hentry, hexpired⟩ := h
  have hget : (store.get key now).1 = none := by
    rw [Store.fst_get, hentry, Option.bind_some, if_pos hexpired]
  rw [lookup_of_some hkey, hget]
  refine ⟨_, rfl, ?_⟩
  split
  · exact Reply.silent_tells _
  · exact Reply.packet_tells rfl

theorem fst_put_of_deposit {d : Deposit} (h : request.deposit? = some d) :
    (put op request now store).1.Tells .noError := by
  rw [put_eq, h]
  dsimp only
  split
  · exact Reply.silent_tells _
  · exact Reply.packet_tells rfl

/-- The three things that a request may do, and how the two are reported that change something. -/
theorem effect_cases (request : Packet) (now : Nat) (store : Store) :
    (request.stores? = none ∧ (∀ key, request.LooksUp key → ¬ store.Gone key now) ∧
        (answer request now store).2 = store) ∨
      (∃ key reply, request.LooksUp key ∧ store.Gone key now ∧
        (answer request now store).2 = store.evict key now ∧ (answer request now store).1 = .ok reply ∧
        reply.Tells .keyNotFound) ∨
      ∃ d reply, request.stores? = some d ∧
        (answer request now store).2 = store.set d.key d.item.pack d.expiry now ∧
        (answer request now store).1 = .ok reply ∧ reply.Tells .noError := by
  rcases kind_cases request with ⟨op, hcommand, hop⟩ | ⟨op, hcommand, hop⟩ | hother
  · have hstores : request.stores? = none := by
      rw [Packet.stores?, hcommand, if_neg]
      cases op <;> simp [Opcode.isLookup] at hop <;> decide
    rw [answer_of_lookup hcommand hop]
    cases hkey : request.key? with
    | none =>
      refine .inl ⟨hstores, ?_, by rw [lookup_of_none hkey]⟩
      rintro key ⟨-, hsome⟩
      rw [hkey] at hsome
      cases hsome
    | some key =>
      have hlooks : request.LooksUp key := ⟨by rw [hcommand]; exact hop, hkey⟩
      have hafter : (lookup op request now store).2 = store.evict key now := by
        rw [lookup_of_some hkey, Store.snd_get]
      by_cases hgone : store.Gone key now
      · obtain ⟨reply, hreply, hstatus⟩ := fst_lookup_of_gone op hkey hgone
        exact .inr (.inl ⟨key, reply, hlooks, hgone, hafter, hreply, hstatus⟩)
      · refine .inl ⟨hstores, ?_, hafter.trans (Store.evict_of_not_gone hgone)⟩
        rintro other ⟨-, hsome⟩
        obtain rfl := Option.some.inj (hkey.symm.trans hsome)
        exact hgone
  · have hstores : request.stores? = request.deposit? := by
      rw [Packet.stores?, hcommand, if_pos (by simpa using hop)]
    rw [answer_of_put hcommand hop, hstores]
    cases hdeposit : request.deposit? with
    | none => exact .inl ⟨rfl, fun key h => absurd h (not_looksUp_of_put hcommand hop key),
        by rw [put_eq, hdeposit]⟩
    | some d =>
      refine .inr (.inr ⟨d, (put op request now store).1, rfl, ?_, rfl, fst_put_of_deposit hdeposit⟩)
      rw [put_eq, hdeposit]
  · have hstores : request.stores? = none := by
      rw [Packet.stores?, if_neg]
      cases hcommand : request.header.command? with
      | none => simp
      | some op => simp [(hother op hcommand).2]
    exact .inl ⟨hstores, fun key h => absurd h (not_looksUp_of_other hother key),
      by rw [answer_of_other hother]⟩

theorem fst_lookup_eq_error_iff (hkey : request.key? = some key) (fault : Fault) :
    (lookup op request now store).1 = .error fault ↔
      ∃ entry, store.find? key = some entry ∧ entry.isExpired now = false ∧
        Item.unpack entry.blob = .error fault := by
  rw [lookup_of_some hkey, Store.fst_get]
  cases store.find? key with
  | none => simp
  | some entry =>
    by_cases hexpired : entry.isExpired now = true
    · simp [hexpired]
    · cases hunpack : Item.unpack entry.blob with
      | ok item => simp [hexpired, hunpack, Except.map]
      | error cause => simp [hexpired, hunpack, Except.map]

/-- Only a lookup fails, and only because of a blob that is there and does not open. -/
theorem fst_answer_eq_error_iff (request : Packet) (now : Nat) (store : Store) (fault : Fault) :
    (answer request now store).1 = .error fault ↔
      ∃ key entry, request.LooksUp key ∧ store.find? key = some entry ∧ entry.isExpired now = false ∧
        Item.unpack entry.blob = .error fault := by
  have never (hreply : ∃ reply, (answer request now store).1 = .ok reply)
      (hlooks : ∀ key, ¬ request.LooksUp key) :
      (answer request now store).1 = .error fault ↔
        ∃ key entry, request.LooksUp key ∧ store.find? key = some entry ∧
          entry.isExpired now = false ∧ Item.unpack entry.blob = .error fault := by
    obtain ⟨reply, hreply⟩ := hreply
    rw [hreply]
    apply iff_of_false nofun
    rintro ⟨key, entry, hkey, -⟩
    exact hlooks key hkey
  rcases kind_cases request with ⟨op, hcommand, hop⟩ | ⟨op, hcommand, hop⟩ | hother
  · match hkey : request.key? with
    | none =>
      refine never ⟨_, by rw [answer_of_lookup hcommand hop, lookup_of_none hkey]⟩ ?_
      rintro key ⟨-, hsome⟩
      simp [hkey] at hsome
    | some key =>
      rw [answer_of_lookup hcommand hop, fst_lookup_eq_error_iff hkey]
      constructor
      · rintro ⟨entry, hfound⟩
        exact ⟨key, entry, ⟨by rw [hcommand]; exact hop, hkey⟩, hfound⟩
      · rintro ⟨own, entry, ⟨-, hown⟩, hfound⟩
        obtain rfl := Option.some.inj (hkey.symm.trans hown)
        exact ⟨entry, hfound⟩
  · exact never ⟨_, by rw [answer_of_put hcommand hop]⟩ (not_looksUp_of_put hcommand hop)
  · exact never ⟨_, by rw [answer_of_other hother]⟩ (not_looksUp_of_other hother)

theorem change_of_answer (h : (answer request now store).2.find? key ≠ store.find? key) :
    request.key? = some key ∧
      ((∃ d, request.stores? = some d) ∨ request.LooksUp key ∧ store.Gone key now) := by
  have hkey : request.key? = some key := by
    apply Decidable.byContradiction
    intro hne
    exact h (answer_frame hne)
  refine ⟨hkey, ?_⟩
  rcases effect_cases request now store with
    ⟨-, -, hafter⟩ | ⟨own, -, hlooks, hgone, -⟩ | ⟨d, -, hstores, -⟩
  · rw [hafter] at h
    exact absurd rfl h
  · obtain rfl := Option.some.inj (hkey.symm.trans hlooks.2)
    exact .inr ⟨hlooks, hgone⟩
  · exact .inl ⟨d, hstores⟩

theorem find?_answer_of_stores {d : Deposit} (h : request.stores? = some d) :
    (answer request now store).2.find? d.key =
      some { blob := d.item.pack, deadline := d.deadline? now } := by
  rcases effect_cases request now store with
    ⟨hnone, -⟩ | ⟨key, -, hlooks, -⟩ | ⟨other, -, hother, hafter, -⟩
  · rw [h] at hnone
    cases hnone
  · exact absurd hlooks (Packet.not_looksUp_of_stores? h key)
  · obtain rfl := Option.some.inj (h.symm.trans hother)
    rw [hafter, Store.find?_set, if_pos rfl, Deposit.deadlineOf_expiry]

theorem find?_answer_of_gone (hlooks : request.LooksUp key) (hgone : store.Gone key now) :
    (answer request now store).2.find? key = none := by
  rcases effect_cases request now store with
    ⟨-, hnot, -⟩ | ⟨own, -, hown, -, hafter, -⟩ | ⟨d, -, hstores, -⟩
  · exact absurd hgone (hnot key hlooks)
  · obtain rfl := Option.some.inj (hlooks.2.symm.trans hown.2)
    rw [hafter, Store.find?_evict_of_gone hgone]
  · exact absurd hlooks (Packet.not_looksUp_of_stores? hstores key)

theorem snd_answer_of_reported {reply : Reply} {code : UInt16}
    (hreply : (answer request now store).1 = .ok reply) (hstatus : reply.status? = some code)
    (hsuccess : code ≠ Status.noError.code) (hmissing : code ≠ Status.keyNotFound.code) :
    (answer request now store).2 = store := by
  rcases effect_cases request now store with
    ⟨-, -, hafter⟩ | ⟨key, other, -, -, -, hother, htells⟩ | ⟨d, other, -, -, hother, htells⟩
  · exact hafter
  · obtain rfl := Except.ok.inj (hreply.symm.trans hother)
    exact absurd (htells code hstatus) hmissing
  · obtain rfl := Except.ok.inj (hreply.symm.trans hother)
    exact absurd (htells code hstatus) hsuccess

theorem snd_answer_of_error {fault : Fault} (h : (answer request now store).1 = .error fault) :
    (answer request now store).2 = store := by
  rcases effect_cases request now store with
    ⟨-, -, hafter⟩ | ⟨key, other, -, -, -, hother, -⟩ | ⟨d, other, -, -, hother, -⟩
  · exact hafter
  · rw [h] at hother
    cases hother
  · rw [h] at hother
    cases hother

/-- A request changes at most the entry of its own key, and nothing if it fails or is refused. -/
theorem answer_confined (request : Packet) (now : Nat) (store : Store) :
    Confined request now store (answer request now store) where
  others key hkey := answer_frame hkey
  changed key hchanged := change_of_answer hchanged
  stored d hstores := by
    have hdeposit := Packet.deposit?_of_stores? hstores
    exact ⟨Packet.key?_of_deposit? hdeposit, Packet.value?_of_deposit? hdeposit, d.item.pack,
      find?_answer_of_stores hstores, Item.unpack_pack d.item⟩
  removed key hlooks hgone := find?_answer_of_gone hlooks hgone
  reported reply code hreply hstatus hsuccess hmissing :=
    snd_answer_of_reported hreply hstatus hsuccess hmissing
  failed fault hfault := snd_answer_of_error hfault
  fails_iff := fst_answer_eq_error_iff request now store

end Service

end ShardedCache
