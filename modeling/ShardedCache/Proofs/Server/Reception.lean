import ShardedCache.Server.Roster

namespace ShardedCache

namespace Roster

variable {roster : Roster}

theorem arrive_cases (roster : Roster) (setback : Option Setback) :
    roster.limit ≤ roster.active ∧ roster.arrive setback = (.turnedAway, roster) ∨
      roster.active < roster.limit ∧
        (setback = none ∧ roster.arrive setback = (.started roster.next, roster.enter.2) ∨
          setback = some .thread ∧
            roster.arrive setback = (.failed, roster.enter.2.leave roster.next) ∨
          setback ≠ none ∧ roster.arrive setback = (.failed, roster)) := by
  by_cases hfull : roster.limit ≤ roster.active
  · exact .inl ⟨hfull, by simp only [arrive, if_pos hfull]⟩
  · right
    refine ⟨by omega, ?_⟩
    simp only [arrive, if_neg hfull]
    cases setback with
    | none => exact .inl ⟨rfl, rfl⟩
    | some setback =>
      right
      cases setback with
      | thread => exact .inl ⟨rfl, rfl⟩
      | _ => exact .inr ⟨nofun, rfl⟩

theorem clients_enter (h : roster.next ∉ roster.clients) :
    roster.enter.2.clients = roster.next :: roster.clients := by
  have hothers : roster.clients.filter (· ≠ roster.next) = roster.clients := by
    apply List.filter_eq_self.mpr
    intro client hclient
    have hne : client ≠ roster.next := by
      rintro rfl
      exact h hclient
    simpa using hne
  rw [enter, hothers]

theorem clients_leave_enter (h : roster.next ∉ roster.clients) :
    (roster.enter.2.leave roster.next).clients = roster.clients := by
  have hdrop : (roster.next :: roster.clients).filter (· ≠ roster.next) =
      roster.clients.filter (· ≠ roster.next) := List.filter_cons_of_neg (by simp)
  rw [leave, clients_enter h, hdrop]
  exact (List.cons.inj (clients_enter h)).2

end Roster

/-- The loop that takes clients, and the workers that serve them. -/
structure Reception where
  roster : Roster
  /-- The clients whose workers run. -/
  running : List UInt64 := []
  isStopping : Bool := false
  hasEnded : Bool := false
  shut : List UInt64 := []

namespace Reception

inductive Event where
  | connect (setback : Option Setback)
  | finish (client : UInt64)
  | stop
  | close

def seat (reception : Reception) : Admission × Roster → Reception
  | (.started client, roster) =>
    { reception with roster := roster, running := client :: reception.running }
  | (_, roster) => { reception with roster := roster }

/-- One step of the loop or of a worker. -/
inductive Step : Reception → Event → Reception → Prop
  -- The loop looks whether it has to stop before it waits for a client, so clients may come after that.
  | connect {reception : Reception} (setback : Option Setback) : reception.hasEnded = false →
      Step reception (.connect setback) (reception.seat (reception.roster.arrive setback))
  | finish {reception : Reception} {client : UInt64} : client ∈ reception.running →
      Step reception (.finish client)
        { reception with
          roster := reception.roster.leave client
          running := reception.running.erase client }
  | stop {reception : Reception} : Step reception .stop { reception with isStopping := true }
  -- Every socket on the roster is shut down.
  | close {reception : Reception} : reception.isStopping = true → reception.hasEnded = false →
      Step reception .close { reception with hasEnded := true, shut := reception.roster.clients }

inductive Run : Reception → List Event → Reception → Prop
  | nil (reception : Reception) : Run reception [] reception
  | cons {before reception after : Reception} {event : Event} {events : List Event} :
    Step before event reception → Run reception events after → Run before (event :: events) after

def new (limit : Nat) : Reception :=
  { roster := { limit := limit } }

/-- What holds after `steps` steps, while the numbers of clients have not started over. -/
structure Exact (limit steps : Nat) (reception : Reception) : Prop where
  limit_eq : reception.roster.limit = limit
  active : reception.roster.active = reception.running.length
  le_limit : reception.roster.active ≤ limit
  clients : reception.roster.clients.Perm reception.running
  distinct : reception.running.Nodup
  numbered : ∀ client ∈ reception.running, client.toNat < reception.roster.next.toNat
  next_le : reception.roster.next.toNat ≤ steps
  shut : reception.hasEnded = true → ∀ client ∈ reception.running, client ∈ reception.shut

namespace Exact

variable {limit steps : Nat} {reception after : Reception} {event : Event} {client : UInt64}

theorem new (limit : Nat) : (new limit).Exact limit 0 :=
  ⟨rfl, rfl, Nat.zero_le limit, .nil, .nil, nofun, Nat.le_refl 0, nofun⟩

theorem next_not_mem (h : reception.Exact limit steps) :
    reception.roster.next ∉ reception.roster.clients := by
  intro hmem
  have hlt := h.numbered _ (h.clients.mem_iff.mp hmem)
  omega

theorem toNat_next_succ (h : reception.Exact limit steps) (hfew : steps + 1 < UInt64.size) :
    (reception.roster.next + 1).toNat = reception.roster.next.toNat + 1 := by
  have hle := h.next_le
  rw [UInt64.toNat_add]
  apply Nat.mod_eq_of_lt
  have hone : (1 : UInt64).toNat = 1 := rfl
  rw [hone]
  exact Nat.lt_of_le_of_lt (Nat.succ_le_succ hle) hfew

theorem start (h : reception.Exact limit steps) (hfew : steps + 1 < UInt64.size)
    (hopen : reception.hasEnded = false) (hroom : reception.roster.active < reception.roster.limit) :
    Exact limit (steps + 1)
      { reception with
        roster := reception.roster.enter.2
        running := reception.roster.next :: reception.running } := by
  have hnext := h.toNat_next_succ hfew
  have hclients := Roster.clients_enter h.next_not_mem
  refine ⟨h.limit_eq, ?_, ?_, ?_, ?_, ?_, ?_, ?_⟩
  · exact congrArg (· + 1) h.active
  · have hlimit := h.limit_eq
    show reception.roster.active + 1 ≤ limit
    omega
  · show reception.roster.enter.2.clients.Perm _
    rw [hclients]
    exact h.clients.cons _
  · apply List.nodup_cons.mpr
    refine ⟨?_, h.distinct⟩
    intro hmem
    exact h.next_not_mem (h.clients.mem_iff.mpr hmem)
  · intro client hclient
    show client.toNat < (reception.roster.next + 1).toNat
    rcases List.mem_cons.mp hclient with rfl | hclient
    · omega
    · have hlt := h.numbered client hclient
      omega
  · have hle := h.next_le
    show (reception.roster.next + 1).toNat ≤ steps + 1
    omega
  · intro hended
    rw [hopen] at hended
    cases hended

theorem fail (h : reception.Exact limit steps) (hfew : steps + 1 < UInt64.size) :
    Exact limit (steps + 1)
      { reception with roster := reception.roster.enter.2.leave reception.roster.next } := by
  have hnext := h.toNat_next_succ hfew
  have hclients := Roster.clients_leave_enter h.next_not_mem
  refine ⟨h.limit_eq, h.active, h.le_limit, ?_, h.distinct, ?_, ?_, h.shut⟩
  · show (reception.roster.enter.2.leave reception.roster.next).clients.Perm _
    rw [hclients]
    exact h.clients
  · intro client hclient
    have hlt := h.numbered client hclient
    show client.toNat < (reception.roster.next + 1).toNat
    omega
  · have hle := h.next_le
    show (reception.roster.next + 1).toNat ≤ steps + 1
    omega

theorem later (h : reception.Exact limit steps) : reception.Exact limit (steps + 1) :=
  { h with next_le := Nat.le_succ_of_le h.next_le }

theorem finish (h : reception.Exact limit steps) (hclient : client ∈ reception.running) :
    Exact limit steps
      { reception with
        roster := reception.roster.leave client
        running := reception.running.erase client } := by
  have hpos : 0 < reception.running.length := List.length_pos_of_mem hclient
  have hlength := List.length_erase_of_mem hclient
  have hactive := h.active
  have hle := h.le_limit
  refine ⟨h.limit_eq, ?_, ?_, ?_, h.distinct.erase client, ?_, h.next_le, ?_⟩
  · show reception.roster.active - 1 = (reception.running.erase client).length
    omega
  · show reception.roster.active - 1 ≤ limit
    omega
  · show (reception.roster.clients.filter (· ≠ client)).Perm (reception.running.erase client)
    have herase : reception.running.erase client = reception.running.filter (· ≠ client) := by
      rw [h.distinct.erase_eq_filter]
      apply List.filter_congr
      intro other _
      by_cases hother : other = client <;> simp [hother]
    rw [herase]
    exact h.clients.filter _
  · intro other hother
    exact h.numbered other (List.mem_of_mem_erase hother)
  · intro hended other hother
    exact h.shut hended other (List.mem_of_mem_erase hother)

theorem close (h : reception.Exact limit steps) :
    Exact limit steps { reception with hasEnded := true, shut := reception.roster.clients } :=
  { h with shut := fun _ _ hclient => h.clients.mem_iff.mpr hclient }

theorem step (h : reception.Exact limit steps) (hstep : Step reception event after)
    (hfew : steps + 1 < UInt64.size) : after.Exact limit (steps + 1) := by
  cases hstep with
  | connect setback hopen =>
    rcases Roster.arrive_cases reception.roster setback with
      ⟨-, hcase⟩ | ⟨hroom, ⟨-, hcase⟩ | ⟨-, hcase⟩ | ⟨-, hcase⟩⟩ <;> rw [hcase]
    · exact h.later
    · exact h.start hfew hopen hroom
    · exact h.fail hfew
    · exact h.later
  | finish hclient => exact (h.finish hclient).later
  | stop => exact { h.later with }
  | close _ _ => exact h.close.later

theorem run {events : List Event} (h : reception.Exact limit steps) (hrun : Run reception events after)
    (hfew : steps + events.length < UInt64.size) : after.Exact limit (steps + events.length) := by
  induction hrun generalizing steps with
  | nil => exact h
  | @cons _ _ _ _ events hstep _ ih =>
    have hlength : steps + (events.length + 1) = steps + 1 + events.length := by omega
    rw [List.length_cons, hlength] at hfew ⊢
    exact ih (h.step hstep (by omega)) hfew

end Exact

/-- After any run of fewer than `UInt64.size` steps:

* as many clients are counted as workers run and as are on the roster, and they are the same ones; they are no
  more than the limit and all different, and the count goes down by one when any of them ends;
* the next client is turned away exactly if as many workers run as the limit allows;
* a start that fails leaves the count and the roster's clients as they were;
* once the loop has ended every client whose worker still runs is on the roster and its socket was shut down. -/
theorem roster_exact {limit : Nat} {events : List Event} {reception : Reception}
    (hrun : Run (new limit) events reception) (hfew : events.length < UInt64.size) :
    reception.roster.active = reception.running.length ∧
      reception.roster.clients.length = reception.running.length ∧
      reception.roster.clients.Perm reception.running ∧
      reception.roster.active ≤ limit ∧ reception.running.Nodup ∧
      (∀ client ∈ reception.running,
        (reception.roster.leave client).active + 1 = reception.roster.active) ∧
      (∀ setback, (reception.roster.arrive setback).1 = .turnedAway ↔
        reception.running.length = limit) ∧
      (∀ setback roster, reception.roster.arrive setback = (.failed, roster) →
        roster.active = reception.roster.active ∧ roster.clients = reception.roster.clients) ∧
      (reception.hasEnded = true → ∀ client ∈ reception.running,
        client ∈ reception.roster.clients ∧ client ∈ reception.shut) := by
  have h : reception.Exact limit (0 + events.length) := (Exact.new limit).run hrun (by omega)
  have hactive := h.active
  have hle := h.le_limit
  have hlimit := h.limit_eq
  refine ⟨hactive, h.clients.length_eq, h.clients, hle, h.distinct, ?_, ?_, ?_, ?_⟩
  · intro client hclient
    have hpos : 0 < reception.running.length := List.length_pos_of_mem hclient
    show reception.roster.active - 1 + 1 = reception.roster.active
    omega
  · intro setback
    rcases Roster.arrive_cases reception.roster setback with
      ⟨hfull, hcase⟩ | ⟨hroom, ⟨-, hcase⟩ | ⟨-, hcase⟩ | ⟨-, hcase⟩⟩ <;> rw [hcase]
    · exact ⟨fun _ => by omega, fun _ => rfl⟩
    all_goals exact ⟨nofun, fun hmany => by omega⟩
  · intro setback roster harrive
    rcases Roster.arrive_cases reception.roster setback with
      ⟨-, hcase⟩ | ⟨-, ⟨-, hcase⟩ | ⟨-, hcase⟩ | ⟨-, hcase⟩⟩ <;> rw [hcase] at harrive <;> cases harrive
    · exact ⟨Nat.add_sub_cancel .., Roster.clients_leave_enter h.next_not_mem⟩
    · exact ⟨rfl, rfl⟩
  · intro hended client hclient
    exact ⟨h.clients.mem_iff.mpr hclient, h.shut hended client hclient⟩

/-- With room for one client, the second is turned away and the third has no thread; the fourth is served when the
loop ends. -/
theorem roster_exact_after_failed_start :
    ∃ reception,
      Run (new 1)
        [.connect none, .connect none, .finish 0, .connect (some .thread), .connect none, .stop, .close]
        reception ∧
      7 < UInt64.size ∧ reception.running = [2] ∧ reception.roster.next = 3 ∧
      reception.roster.active = reception.running.length ∧
      (∀ setback, (reception.roster.arrive setback).1 = .turnedAway ↔ reception.running.length = 1) ∧
      ∀ client ∈ reception.running, client ∈ reception.roster.clients ∧ client ∈ reception.shut := by
  have hrun : ∃ reception,
      Run (new 1)
        [.connect none, .connect none, .finish 0, .connect (some .thread), .connect none, .stop, .close]
        reception ∧
      reception.running = [2] ∧ reception.roster.next = 3 ∧ reception.hasEnded = true :=
    ⟨_, .cons (.connect none rfl) (.cons (.connect none rfl) (.cons (.finish (by decide))
      (.cons (.connect (some .thread) rfl) (.cons (.connect none rfl) (.cons .stop
        (.cons (.close rfl rfl) (.nil _))))))), by decide, by decide, by decide⟩
  obtain ⟨reception, hrun, hrunning, hnext, hended⟩ := hrun
  obtain ⟨hactive, -, -, -, -, -, haway, -, hshut⟩ := roster_exact hrun (by decide)
  exact ⟨reception, hrun, by decide, hrunning, hnext, hactive, haway, hshut hended⟩

end Reception

end ShardedCache
