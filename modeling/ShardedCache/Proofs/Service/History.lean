import ShardedCache.Proofs.Service.Responses

namespace ShardedCache

namespace Deposit

/-- The second from which on what was stored at the second `made` is gone: none without an expiry, so many
seconds later for one of up to thirty days, and the expiry itself for a longer one. -/
def deadline? (d : Deposit) (made : Nat) : Option Nat :=
  if d.expiry.toNat = 0 then none
  else if d.expiry.toNat ≤ 30 * 24 * 60 * 60 then some (made + d.expiry.toNat)
  else some d.expiry.toNat

def isGone (d : Deposit) (made now : Nat) : Bool :=
  (d.deadline? made).any (· ≤ now)

theorem deadlineOf_expiry (d : Deposit) (made : Nat) :
    Store.deadlineOf d.expiry made = d.deadline? made := by
  have hzero : d.expiry = 0 ↔ d.expiry.toNat = 0 := by
    rw [← UInt32.toNat_inj]
    exact Iff.rfl
  have hshort : d.expiry ≤ Store.relativeLimit ↔ d.expiry.toNat ≤ 30 * 24 * 60 * 60 := by
    rw [UInt32.le_iff_toNat_le]
    exact Iff.rfl
  simp only [Store.deadlineOf, deadline?, hzero, hshort]

theorem isGone_mono {d : Deposit} {made now later : Nat} (h : d.isGone made now = true)
    (hle : now ≤ later) : d.isGone made later = true :=
  passed_mono h hle

end Deposit

/-- Requests, each with the second at which it was answered. -/
abbrev History := List (Packet × Nat)

namespace History

def remember (key : Octets) (past : Option (Deposit × Nat)) (step : Packet × Nat) :
    Option (Deposit × Nat) :=
  match step.1.stores? with
  | some d => if d.key = key then some (d, step.2) else past
  | none => past

/-- The latest that was stored under a key, and when. -/
def latest? (key : Octets) (history : History) : Option (Deposit × Nat) :=
  history.foldl (remember key) none

def live? (key : Octets) (history : History) (now : Nat) : Option Deposit :=
  (latest? key history).bind fun (d, made) => if d.isGone made now then none else some d

def store (history : History) : Store :=
  history.foldl (fun store step => (Service.answer step.1 step.2 store).2) {}

end History

structure Carries (request response : Packet) (status : Status) (flags : UInt32)
    (key value : Octets) : Prop where
  responds : Responds request response
  status : response.header.status = status.code
  extras : response.extras? = some (Octets.bigEndian 4 flags.toNat)
  key : response.key? = some key
  value : response.value? = some value

/-- The entry of `key` is what the past left there, or was removed when it was gone already. -/
def Store.Tracks (store : Store) (key : Octets) (past : Option (Deposit × Nat)) (now : Nat) : Prop :=
  store.find? key =
      past.map (fun (d, made) => { blob := d.item.pack, deadline := d.deadline? made }) ∨
    store.find? key = none ∧ ∃ d made, past = some (d, made) ∧ d.isGone made now = true

namespace Store.Tracks

open Service

variable {store : Store} {key : Octets} {past : Option (Deposit × Nat)} {now later : Nat}

theorem mono (h : store.Tracks key past now) (hle : now ≤ later) : store.Tracks key past later := by
  rcases h with h | ⟨hnone, d, made, hpast, hgone⟩
  · exact .inl h
  · exact .inr ⟨hnone, d, made, hpast, Deposit.isGone_mono hgone hle⟩

theorem of_find? {after : Store} (h : store.Tracks key past now)
    (hentry : after.find? key = store.find? key) : after.Tracks key past now := by
  rw [Tracks, hentry]
  exact h

theorem get (h : store.Tracks key past now) (other : Octets) :
    (store.get other now).2.Tracks key past now := by
  by_cases hevicts : key = other ∧ (store.find? other).any (·.isExpired now) = true
  · obtain ⟨rfl, hexpired⟩ := hevicts
    have hnone : (store.get key now).2.find? key = none := by
      rw [find?_get, if_pos ⟨rfl, hexpired⟩]
    refine .inr ⟨hnone, ?_⟩
    rcases h with h | ⟨-, hgone⟩
    · match past with
      | none => simp [h] at hexpired
      | some (d, made) =>
        rw [h] at hexpired
        exact ⟨d, made, rfl, hexpired⟩
    · exact hgone
  · exact h.of_find? (by rw [find?_get, if_neg hevicts])

theorem answer (h : store.Tracks key past now) (request : Packet) :
    (Service.answer request now store).2.Tracks key (History.remember key past (request, now)) now := by
  rcases snd_answer_cases request now store with
    ⟨hstores, hafter⟩ | ⟨own, -, hstores, hafter⟩ | ⟨d, hstores, hafter⟩
  · rw [hafter]
    simpa only [History.remember, hstores] using h
  · rw [hafter]
    simpa only [History.remember, hstores] using h.get own
  · rw [hafter]
    simp only [History.remember, hstores]
    by_cases hkey : d.key = key
    · rw [if_pos hkey]
      refine .inl ?_
      rw [find?_set, if_pos hkey.symm, Deposit.deadlineOf_expiry]
      rfl
    · rw [if_neg hkey]
      exact h.of_find? (by rw [find?_set, if_neg fun heq => hkey heq.symm])

theorem foldl {history : History} (h : store.Tracks key past now)
    (htimes : (now :: (history.map (·.2) ++ [later])).Pairwise (· ≤ ·)) :
    (history.foldl (fun store step => (Service.answer step.1 step.2 store).2) store).Tracks key
      (history.foldl (History.remember key) past) later := by
  -- The induction is on what is still to come, with the store and the past as they are by then.
  induction history generalizing store past now with
  | nil => exact h.mono ((List.pairwise_cons.mp htimes).1 later List.mem_cons_self)
  | cons step history ih =>
    obtain ⟨hnow, hlater⟩ := List.pairwise_cons.mp htimes
    exact ih ((h.mono (hnow step.2 List.mem_cons_self)).answer step.1) hlater

theorem fst_get (h : store.Tracks key past now) :
    (store.get key now).1 =
      (past.bind fun (d, made) => if d.isGone made now then none else some d).map (·.item.pack) := by
  rw [Store.fst_get]
  rcases h with h | ⟨hnone, d, made, rfl, hgone⟩
  · rw [h]
    match past with
    | none => rfl
    | some (d, made) =>
      simp only [Option.map_some, Option.bind_some]
      by_cases hgone : d.isGone made now = true
      · have hexpired : Entry.isExpired
            { blob := d.item.pack, deadline := d.deadline? made } now = true := hgone
        rw [if_pos hgone, if_pos hexpired]
        rfl
      · have hexpired : ¬ Entry.isExpired
            { blob := d.item.pack, deadline := d.deadline? made } now = true := hgone
        rw [if_neg hgone, if_neg hexpired]
        rfl
  · simp only [hnone, Option.bind_none, Option.bind_some, hgone, if_true, Option.map_none]

end Store.Tracks

namespace Service

theorem reachable_foldl {history : History} {store : Store} (h : Reachable store)
    (hassembled : ∀ step ∈ history, ∃ limit, step.1.Assembled limit) :
    Reachable (history.foldl (fun store step => (answer step.1 step.2 store).2) store) := by
  induction history generalizing store with
  | nil => exact h
  | cons step history ih =>
    obtain ⟨limit, hstep⟩ := hassembled step List.mem_cons_self
    exact ih (h.answer step.2 hstep) fun other hother =>
      hassembled other (List.mem_cons_of_mem step hother)

theorem lookupResponse_carries {request : Packet} {status : Status} {flags : UInt32}
    {key value : Octets} (hkey : key.length < 65536)
    (hlen : 4 + key.length + value.length < 4294967296) (hstatus : status ≠ .invalidArguments) :
    Carries request (lookupResponse request.header status flags key value) status flags key value := by
  have hparts : (lookupResponse request.header status flags key value).Parts
      (Octets.bigEndian 4 flags.toNat) key value := parts_lookupResponse hkey
  exact ⟨lookupResponse_responds hkey hlen hstatus, rfl, hparts.extras_eq, hparts.key_eq, hparts.value_eq⟩

/-- After any history of requests a lookup is answered with the latest that was stored under its key, unless
that is gone by then or nothing was.  A miss is answered without a value, or not at all if the lookup is
quiet. -/
theorem lookup_after_history {history : History} {request : Packet} {now : Nat} {op : Opcode}
    {key : Octets} (hassembled : ∀ step ∈ history, ∃ limit, step.1.Assembled limit)
    (htimes : (history.map (·.2) ++ [now]).Pairwise (· ≤ ·))
    (hcommand : request.header.command? = some op) (hop : op.isLookup = true)
    (hkey : request.key? = some key) :
    match history.live? key now with
    | some d =>
      ∃ response, (answer request now history.store).1 = .ok (.packet response) ∧
        Carries request response .noError d.item.flags (shown op key) d.item.value
    | none =>
      if op.isQuiet then (answer request now history.store).1 = .ok .silent
      else
        ∃ response, (answer request now history.store).1 = .ok (.packet response) ∧
          Carries request response .keyNotFound 0 (shown op key) [] := by
  have hempty : Store.Tracks {} key none 0 := .inl rfl
  have hzero : (0 :: (history.map (·.2) ++ [now])).Pairwise (· ≤ ·) :=
    List.pairwise_cons.mpr ⟨fun _ _ => Nat.zero_le _, htimes⟩
  have htracks : history.store.Tracks key (history.latest? key) now := hempty.foldl hzero
  have hstocked : history.store.Stocked 4294967295 := (reachable_foldl .empty hassembled).stocked
  have hget : (history.store.get key now).1 = (history.live? key now).map (·.item.pack) :=
    htracks.fst_get
  have hshort : key.length < 65536 := by
    rw [Packet.length_of_key? hkey]
    exact request.header.keyLength.toNat_lt
  have hshown := length_shown_le op key
  rw [answer_of_lookup hcommand hop, lookup_of_some hkey, hget]
  match hlive : history.live? key now with
  | some d =>
    rw [hlive] at hget
    obtain ⟨item, hpack, hlen⟩ := hstocked.exists_item hget
    have hitem : d.item = item := Item.pack_injective hpack
    rw [← hitem] at hlen
    refine ⟨lookupResponse request.header .noError d.item.flags (shown op key) d.item.value, ?_, ?_⟩
    · simp only [Option.map_some, Item.unpack_pack]
      rfl
    · exact lookupResponse_carries (by omega) (by omega) nofun
  | none =>
    by_cases hquiet : op.isQuiet = true
    · simp only [hquiet, if_true, Option.map_none]
    · simp only [hquiet, if_false, Option.map_none, Bool.false_eq_true]
      refine ⟨lookupResponse request.header .keyNotFound 0 (shown op key) [], rfl, ?_⟩
      exact lookupResponse_carries (by omega) (by rw [List.length_nil]; omega) nofun

/-- Nine seconds after a request to store for ten the value is there, with its flags and its key. -/
theorem lookup_after_history_within_expiry :
    ∃ response,
      (answer ⟨{ magic := 0x80, opcode := 0x0c, keyLength := 1, totalBody := 1 }, [107]⟩ 14
          (History.store
            [(⟨{ magic := 0x80, opcode := 0x01, keyLength := 1, extrasLength := 8, totalBody := 10 },
              [0, 0, 0, 7, 0, 0, 0, 10, 107, 118]⟩, 5)])).1 = .ok (.packet response) ∧
        Carries ⟨{ magic := 0x80, opcode := 0x0c, keyLength := 1, totalBody := 1 }, [107]⟩ response
          .noError 7 [107] [118] := by
  have hassembled : ∀ step ∈ ([(⟨
      { magic := 0x80, opcode := 0x01, keyLength := 1, extrasLength := 8, totalBody := 10 },
      [0, 0, 0, 7, 0, 0, 0, 10, 107, 118]⟩, 5)] : History), ∃ limit, step.1.Assembled limit := by
    intro step hstep
    obtain rfl := List.mem_singleton.mp hstep
    exact ⟨10, rfl, rfl, Nat.le_refl 10⟩
  have htimes : ([5] ++ [14] : List Nat).Pairwise (· ≤ ·) := by decide
  have hcommand : Header.command? { magic := 0x80, opcode := 0x0c, keyLength := 1, totalBody := 1 } =
      some .getK := rfl
  have hkey : Packet.key? ⟨{ magic := 0x80, opcode := 0x0c, keyLength := 1, totalBody := 1 }, [107]⟩ =
      some [107] := rfl
  exact lookup_after_history hassembled htimes hcommand rfl hkey

end Service

end ShardedCache
