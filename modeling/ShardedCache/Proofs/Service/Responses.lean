import ShardedCache.Proofs.Frame.Assembly
import ShardedCache.Proofs.Service.Answering
import ShardedCache.Proofs.Session.Delivery
import ShardedCache.Proofs.Stream.Arrival

namespace ShardedCache

namespace Packet

def quits (p : Packet) : Bool :=
  p.header.command? = some .quit || p.header.command? = some .quitQ

def isQuiet (p : Packet) : Bool :=
  p.header.command?.any (·.isQuiet)

/-- The command byte under which an error of the request is reported. -/
def syncByte (p : Packet) : UInt8 :=
  (p.header.command?.map fun op => op.syncForm.byte).getD p.header.opcode

end Packet

/-- A response as the wire format wants it for a request. -/
structure Responds (request response : Packet) : Prop where
  magic : response.header.magic = Header.responseMagic
  echo : response.header.echo = request.header.echo
  opcode : response.header.opcode =
    if response.header.status = Status.invalidArguments.code then request.syncByte
    else request.header.opcode
  complete : response.Complete
  segments : response.header.extrasLength.toNat + response.header.keyLength.toNat ≤
    response.header.totalBody.toNat

/-- What a request is answered: the response if there is one, and whether the connection ends. -/
structure Answers (request : Packet) (reply : Reply) (response? : Option Packet) : Prop where
  octets : reply.octets = (response?.map Packet.encode).getD []
  closes : reply.closes = request.quits
  responds : ∀ response, response? = some response → Responds request response
  quiet : response? = none → request.isQuiet = true

namespace Service

variable {request : Packet} {op : Opcode} {now : Nat} {store : Store} {key value : Octets}
  {flags : UInt32} {status : Status}

theorem code_ne (h : status ≠ .invalidArguments) : status.code ≠ Status.invalidArguments.code := by
  intro hcode
  have hsome := congrArg Status.ofCode? hcode
  rw [Status.ofCode?_code, Status.ofCode?_code] at hsome
  exact h (Option.some.inj hsome)

theorem keyLength_lookupResponse (h : key.length < 65536) :
    (lookupResponse request.header status flags key value).header.keyLength.toNat = key.length := by
  simpa [lookupResponse, Header.withLengths] using Nat.mod_eq_of_lt h

theorem length_lookupResponse :
    (lookupResponse request.header status flags key value).body.length =
      4 + key.length + value.length := by
  simp [lookupResponse, Nat.add_assoc]

theorem complete_lookupResponse (hkey : key.length < 65536)
    (hlen : 4 + key.length + value.length < 4294967296) :
    (lookupResponse request.header status flags key value).Complete := by
  have htotal : (lookupResponse request.header status flags key value).header.totalBody.toNat =
      (value.length + 4 + key.length % 65536) % 4294967296 := by
    simp [lookupResponse, Header.withLengths, Packet.getExtrasLength]
  rw [Packet.Complete, length_lookupResponse, htotal, Nat.mod_eq_of_lt hkey, Nat.mod_eq_of_lt]
  all_goals omega

theorem parts_lookupResponse (hkey : key.length < 65536) :
    (lookupResponse request.header status flags key value).Parts (Octets.bigEndian 4 flags.toNat) key value := by
  have hfour : (lookupResponse request.header status flags key value).header.extrasLength.toNat =
      (Octets.bigEndian 4 flags.toNat).length := (Octets.length_bigEndian ..).symm
  have hmeasured : (lookupResponse request.header status flags key value).header.keyLength.toNat = key.length :=
    keyLength_lookupResponse hkey
  exact Packet.parts_of_append hfour hmeasured

theorem lookupResponse_responds (hkey : key.length < 65536)
    (hlen : 4 + key.length + value.length < 4294967296) (hstatus : status ≠ .invalidArguments) :
    Responds request (lookupResponse request.header status flags key value) := by
  have hcode : (lookupResponse request.header status flags key value).header.status ≠
      Status.invalidArguments.code := code_ne hstatus
  have hcomplete : (lookupResponse request.header status flags key value).Complete :=
    complete_lookupResponse hkey hlen
  refine ⟨rfl, rfl, ?_, hcomplete, ?_⟩
  · rw [if_neg hcode]
    rfl
  · have hextras :
        (lookupResponse request.header status flags key value).header.extrasLength.toNat = 4 := rfl
    rw [hcomplete, length_lookupResponse, hextras, keyLength_lookupResponse hkey]
    omega

theorem statusFor_responds (request : Packet) (status : Status) (h : status ≠ .invalidArguments) :
    Responds request { header := request.header.statusFor status } := by
  refine ⟨rfl, rfl, ?_, rfl, Nat.le_refl 0⟩
  have hcode : (request.header.statusFor status).status ≠ Status.invalidArguments.code := code_ne h
  rw [if_neg hcode]
  rfl

theorem status_answers (h : status ≠ .invalidArguments) (hquits : request.quits = false) :
    Answers request (.status request.header status)
      (some { header := request.header.statusFor status }) := by
  refine ⟨(List.append_nil _).symm, hquits.symm, ?_, nofun⟩
  rintro _ ⟨⟩
  exact statusFor_responds request status h

theorem invalidArguments_answers (hcommand : request.header.command? = some op)
    (hquits : request.quits = false) :
    Answers request (.invalidArguments op request.header)
      (some { header :=
        { request.header.statusFor .invalidArguments with opcode := op.syncForm.byte } }) := by
  refine ⟨(List.append_nil _).symm, hquits.symm, ?_, nofun⟩
  rintro _ ⟨⟩
  refine ⟨rfl, rfl, ?_, rfl, Nat.le_refl 0⟩
  have hsync : request.syncByte = op.syncForm.byte := by
    rw [Packet.syncByte, hcommand]
    rfl
  simp only [Header.statusFor, if_true]
  exact hsync.symm

theorem packet_answers {response : Packet} (h : Responds request response)
    (hquits : request.quits = false) : Answers request (.packet response) (some response) := by
  refine ⟨rfl, hquits.symm, ?_, nofun⟩
  rintro _ ⟨⟩
  exact h

theorem silent_answers (hquiet : request.isQuiet = true) (hquits : request.quits = false) :
    Answers request .silent none :=
  ⟨rfl, hquits.symm, nofun, fun _ => hquiet⟩

theorem quits_of_command (h : request.header.command? = some op) (hquit : op ≠ .quit)
    (hquitQ : op ≠ .quitQ) : request.quits = false := by
  simp [Packet.quits, h, hquit, hquitQ]

theorem isQuiet_of_command (h : request.header.command? = some op) : request.isQuiet = op.isQuiet := by
  simp [Packet.isQuiet, h]

theorem declined_answers (request : Packet) :
    ∃ response?, Answers request (declined request) response? ∧
      ∀ response, response? = some response → response.body = [] := by
  have hstatus : Responds request { header := request.header.statusFor .notSupported } :=
    statusFor_responds request .notSupported (by decide)
  cases hcommand : request.header.command? with
  | none =>
    have hquits : request.quits = false := by simp [Packet.quits, hcommand]
    refine ⟨some { header := request.header.statusFor .notSupported }, ?_, ?_⟩
    · simp only [declined, hcommand]
      exact status_answers (by decide) hquits
    · rintro _ ⟨⟩
      rfl
  | some op =>
    by_cases hquitQ : op = .quitQ
    · subst hquitQ
      refine ⟨none, ?_, by simp⟩
      simp only [declined, hcommand]
      exact ⟨rfl, by simp [Reply.closes, Packet.quits, hcommand], by simp,
        fun _ => isQuiet_of_command hcommand⟩
    by_cases hquit : op = .quit
    · subst hquit
      refine ⟨some { header := request.header.statusFor .notSupported }, ?_, ?_⟩
      · simp only [declined, hcommand]
        refine ⟨(List.append_nil _).symm, ?_, ?_, by simp⟩
        · simp [Reply.closes, Reply.andClose, Reply.status, Packet.quits, hcommand]
        · rintro _ ⟨⟩
          exact hstatus
      · rintro _ ⟨⟩
        rfl
    have hquits := quits_of_command hcommand hquit hquitQ
    have hdeclined : declined request =
        if op.isQuiet then .silent else .status request.header .notSupported := by
      cases op <;> simp_all [declined]
    rw [hdeclined]
    by_cases hquiet : op.isQuiet = true
    · rw [if_pos hquiet]
      exact ⟨none, silent_answers ((isQuiet_of_command hcommand).trans hquiet) hquits, by simp⟩
    · rw [if_neg hquiet]
      refine ⟨some { header := request.header.statusFor .notSupported },
        status_answers (by decide) hquits, ?_⟩
      rintro _ ⟨⟩
      rfl

theorem length_shown_le (op : Opcode) (key : Octets) : (shown op key).length ≤ key.length := by
  rw [shown]
  split
  · exact Nat.le_refl _
  · exact Nat.zero_le _

def Fits (request : Packet) (room : Nat) (outcome : Except Fault Reply) : Prop :=
  ∃ reply response?, outcome = .ok reply ∧ Answers request reply response? ∧
    ∀ response, response? = some response → response.body.length ≤ room

theorem Fits.of_header {room : Nat} {reply : Reply} {header : Header}
    (h : Answers request reply (some { header := header })) : Fits request room (.ok reply) := by
  refine ⟨reply, _, rfl, h, ?_⟩
  rintro _ ⟨⟩
  exact Nat.zero_le room

theorem lookup_fits {bound : Nat} (hbound : bound < 4294967296) (hstore : store.Stocked bound)
    (hcommand : request.header.command? = some op) (hop : op.isLookup = true) (now : Nat) :
    Fits request (max bound 65539) (lookup op request now store).1 := by
  have hquits : request.quits = false :=
    quits_of_command hcommand (by rintro rfl; cases hop) (by rintro rfl; cases hop)
  cases hkey : request.key? with
  | none =>
    rw [lookup_of_none hkey]
    exact .of_header (invalidArguments_answers hcommand hquits)
  | some key =>
    have hshort : key.length < 65536 := Packet.length_key?_lt hkey
    have hshown := length_shown_le op key
    rw [lookup_of_some hkey]
    cases hget : (store.get key now).1 with
    | some blob =>
      -- A hit: four octets of flags take the place of the eight extras that came with the value.
      obtain ⟨item, rfl, hlen⟩ := hstore.exists_item hget
      have hresponds : Responds request
          (lookupResponse request.header .noError item.flags (shown op key) item.value) :=
        lookupResponse_responds (by omega) (by omega) (by decide)
      refine ⟨_, _, by simp only [Item.unpack_pack]; rfl, packet_answers hresponds hquits, ?_⟩
      rintro _ ⟨⟩
      rw [length_lookupResponse]
      omega
    | none =>
      by_cases hquiet : op.isQuiet = true
      · simp only [hquiet, if_true]
        have hsilent := silent_answers ((isQuiet_of_command hcommand).trans hquiet) hquits
        exact ⟨.silent, none, rfl, hsilent, by simp⟩
      · simp only [hquiet, if_false, Bool.false_eq_true]
        have hresponds : Responds request
            (lookupResponse request.header .keyNotFound 0 (shown op key) []) :=
          lookupResponse_responds (by omega) (by rw [List.length_nil]; omega) (by decide)
        refine ⟨_, _, rfl, packet_answers hresponds hquits, ?_⟩
        rintro _ ⟨⟩
        rw [length_lookupResponse, List.length_nil]
        omega

theorem put_fits {room : Nat} (hcommand : request.header.command? = some op) (hop : op.isPut = true)
    (now : Nat) (store : Store) : Fits request room (.ok (put op request now store).1) := by
  have hquits : request.quits = false :=
    quits_of_command hcommand (by rintro rfl; cases hop) (by rintro rfl; cases hop)
  rw [put_eq]
  cases request.deposit? with
  | none => exact .of_header (invalidArguments_answers hcommand hquits)
  | some d =>
    by_cases hquiet : op = .setQ
    · subst hquiet
      simp only [if_true]
      exact ⟨.silent, none, rfl, silent_answers (isQuiet_of_command hcommand) hquits, by simp⟩
    · simp only [hquiet, if_false]
      have hstored : Responds request { header := request.header.responseTo } :=
        statusFor_responds request .noError (by decide)
      exact .of_header (packet_answers hstored hquits)

/-- A store whose blobs open answers every request without a fault, and what it answers fits the request and
takes up no more than what was stored, or than a key. -/
theorem answer_fits {bound : Nat} (hbound : bound < 4294967296) (hstore : store.Stocked bound)
    (request : Packet) (now : Nat) : Fits request (max bound 65539) (answer request now store).1 := by
  rcases kind_cases request with ⟨op, hcommand, hop⟩ | ⟨op, hcommand, hop⟩ | hother
  · rw [answer_of_lookup hcommand hop]
    exact lookup_fits hbound hstore hcommand hop now
  · rw [answer_of_put hcommand hop]
    exact put_fits hcommand hop now store
  · rw [answer_of_other hother]
    obtain ⟨response?, hanswers, hbody⟩ := declined_answers request
    refine ⟨_, response?, rfl, hanswers, ?_⟩
    intro response hresponse
    rw [hbody response hresponse]
    exact Nat.zero_le _

/-- The stores that come about by answering requests, whatever their limits and times. -/
inductive Reachable : Store → Prop
  | empty : Reachable {}
  | answer {store : Store} {request : Packet} {limit : Nat} (now : Nat) :
    Reachable store → request.Assembled limit → Reachable (Service.answer request now store).2

/-- A body is never longer than its header can say, and so is nothing that is stored. -/
theorem Reachable.stocked {store : Store} (h : Reachable store) : store.Stocked 4294967295 := by
  induction h with
  | empty => exact Store.stocked_empty _
  | @answer store request limit now _ hassembled ih =>
    have hlt := request.header.totalBody.toNat_lt
    have hbody : request.body.length ≤ 4294967295 := by
      rw [← hassembled.total]
      omega
    exact answer_stocked hbody ih

theorem Reachable.answers {store : Store} (h : Reachable store) (request : Packet) (now : Nat) :
    ∃ reply response?, (Service.answer request now store).1 = .ok reply ∧
      Answers request reply response? := by
  obtain ⟨reply, response?, hreply, hanswers, -⟩ := answer_fits (by decide) h.stocked request now
  exact ⟨reply, response?, hreply, hanswers⟩

end Service

end ShardedCache
