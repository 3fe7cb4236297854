import ShardedCache.Proofs.Service.Answering
import ShardedCache.Relay

namespace ShardedCache.Relay

variable {request : Packet} {op : Opcode} {key : Octets}

theorem errand_of_keyed (hcommand : request.header.command? = some op)
    (hop : (op.isLookup || op.isPut) = true) :
    errand request =
      match request.key? with
      | some key => .forward op key
      | none => .settled (.invalidArguments op request.header) := by
  match hkey : request.key? with
  | none => cases op <;> simp [Opcode.isLookup, Opcode.isPut] at hop <;> simp only [errand, hcommand, hkey]
  | some key =>
    cases op <;> simp [Opcode.isLookup, Opcode.isPut] at hop <;> simp only [errand, hcommand, hkey]

theorem errand_of_other (h : ∀ op, request.header.command? = some op →
      op.isLookup = false ∧ op.isPut = false) : ∃ reply, errand request = .settled reply := by
  match hcommand : request.header.command? with
  | none =>
    simp only [errand, hcommand]
    exact ⟨_, rfl⟩
  | some op =>
    obtain ⟨hlookup, hput⟩ := h op hcommand
    cases op <;> simp [Opcode.isLookup, Opcode.isPut] at hlookup hput <;>
      simp only [errand, hcommand] <;> exact ⟨_, rfl⟩

theorem errand_eq_forward_iff : errand request = .forward op key ↔
    request.header.command? = some op ∧ (op.isLookup || op.isPut) = true ∧ request.key? = some key := by
  constructor
  · intro h
    have hkeyed : ∃ op, request.header.command? = some op ∧ (op.isLookup || op.isPut) = true := by
      rcases Service.kind_cases request with ⟨op, hcommand, hop⟩ | ⟨op, hcommand, hop⟩ | hother
      · exact ⟨op, hcommand, by simp [hop]⟩
      · exact ⟨op, hcommand, by simp [hop]⟩
      · obtain ⟨reply, hsettled⟩ := errand_of_other hother
        simp [hsettled] at h
    obtain ⟨own, hcommand, hop⟩ := hkeyed
    rw [errand_of_keyed hcommand hop] at h
    match hkey : request.key? with
    | none => simp [hkey] at h
    | some whole =>
      simp only [hkey, Errand.forward.injEq] at h
      obtain ⟨rfl, rfl⟩ := h
      exact ⟨hcommand, hop, rfl⟩
  · rintro ⟨hcommand, hop, hkey⟩
    rw [errand_of_keyed hcommand hop, hkey]

/-- Of the commands that are forwarded only the quiet request to store may be silenced. -/
theorem conclude_of_keyed (hop : (op.isLookup || op.isPut) = true) (frame : Octets) :
    conclude op frame =
      if op = .setQ ∧ Header.peekStatus? frame = some 0 then .silent else .send frame := by
  have hsuppresses : op.suppressesSuccess = true ↔ op = .setQ := by
    cases op <;> simp [Opcode.isLookup, Opcode.isPut] at hop <;> decide
  simp only [conclude, Bool.and_eq_true, decide_eq_true_eq, hsuppresses]

theorem answer_of_no_key (hcommand : request.header.command? = some op)
    (hop : (op.isLookup || op.isPut) = true) (hkey : request.key? = none) (now : Nat) (store : Store) :
    Service.answer request now store = (.ok (.invalidArguments op request.header), store) := by
  rcases Bool.or_eq_true_iff.mp hop with hop | hop
  · rw [Service.answer_of_lookup hcommand hop, Service.lookup_of_none hkey]
  · have hnone : request.deposit? = none := by
      match hdeposit : request.deposit? with
      | none => rfl
      | some d => simp [Packet.key?_of_deposit? hdeposit] at hkey
    rw [Service.answer_of_put hcommand hop, Service.put_eq, hnone]

theorem answer_of_settled_keyed {reply : Reply} (hcommand : request.header.command? = some op)
    (hop : (op.isLookup || op.isPut) = true) (h : errand request = .settled reply) (now : Nat)
    (store : Store) : Service.answer request now store = (.ok reply, store) := by
  rw [errand_of_keyed hcommand hop] at h
  match hkey : request.key? with
  | some key => simp [hkey] at h
  | none =>
    simp only [hkey, Errand.settled.injEq] at h
    rw [answer_of_no_key hcommand hop hkey, h]

/-- What is settled is what a server answers, whatever it stores. -/
theorem answer_of_settled {reply : Reply} {now : Nat} {store : Store}
    (hquiet : ∀ op, request.header.command? = some op → op.isQuiet = false ∧ op ≠ .noop)
    (h : errand request = .settled reply) : Service.answer request now store = (.ok reply, store) := by
  rcases Service.kind_cases request with ⟨op, hcommand, hop⟩ | ⟨op, hcommand, hop⟩ | hother
  · exact answer_of_settled_keyed hcommand (by simp [hop]) h now store
  · exact answer_of_settled_keyed hcommand (by simp [hop]) h now store
  · rw [Service.answer_of_other hother]
    match hcommand : request.header.command? with
    | none =>
      simp only [errand, hcommand, Errand.settled.injEq] at h
      simp only [Service.declined, hcommand, h]
    | some op =>
      obtain ⟨hloud, hnoop⟩ := hquiet op hcommand
      obtain ⟨hlookup, hput⟩ := hother op hcommand
      cases op <;> simp [Opcode.isLookup, Opcode.isPut, Opcode.isQuiet] at hlookup hput hloud hnoop <;>
        simp only [errand, hcommand, Errand.settled.injEq] at h <;>
        simp only [Service.declined, hcommand, h, Opcode.isQuiet, if_false, Bool.false_eq_true]

section Forward

variable {κ ν : Type} (plane : Backplane κ ν) (op : Opcode) (now : Nat) {address : Address}
  {pool : Pool Address κ} {world borrowed after : ν} {loan : Pool.Outcome Address κ (Except IoError κ)} {conn back : κ}

theorem forward_of_refusal {error : IoError}
    (hborrow : pool.borrow (plane.usable world) (plane.dial address) address world = (loan, borrowed))
    (hanswer : loan.answer = .error error) :
    forward plane now op address request pool world =
      { reply := .status request.header .internalError, pool := loan.pool, world := borrowed,
        closed := loan.closed } := by
  simp only [forward, hborrow, hanswer]

theorem forward_of_frame {frame : Octets}
    (hborrow : pool.borrow (plane.usable world) (plane.dial address) address world = (loan, borrowed))
    (hanswer : loan.answer = .ok conn)
    (hconverse : plane.converse request.encode conn borrowed = (.ok frame, back, after)) :
    forward plane now op address request pool world =
      { reply := conclude op frame
        pool := (loan.pool.giveBack (plane.usable after) now address back).pool
        world := after
        closed := loan.closed ++ (loan.pool.giveBack (plane.usable after) now address back).closed } := by
  simp only [forward, hborrow, hanswer, hconverse]

theorem forward_of_fault {fault : Fault}
    (hborrow : pool.borrow (plane.usable world) (plane.dial address) address world = (loan, borrowed))
    (hanswer : loan.answer = .ok conn)
    (hconverse : plane.converse request.encode conn borrowed = (.error fault, back, after)) :
    forward plane now op address request pool world =
      { reply := .status request.header .internalError
        pool := (loan.pool.giveBack (plane.usable after) now address (plane.spoil back)).pool
        world := after
        closed := loan.closed ++
          (loan.pool.giveBack (plane.usable after) now address (plane.spoil back)).closed } := by
  simp only [forward, hborrow, hanswer, hconverse]

end Forward

end ShardedCache.Relay
