import ShardedCache.Proofs.Relay.Errands
import ShardedCache.Relay.Link

namespace ShardedCache

namespace Packet

def Overruns (p : Packet) : Prop :=
  p.body.length < p.header.extrasLength.toNat + p.header.keyLength.toNat

theorem key?_eq_none_iff {p : Packet} : p.key? = none ↔ p.Overruns := by
  rw [key?, Octets.slice?, Overruns, ite_eq_right_iff, ← Nat.not_le]
  simp

end Packet

def Header.refusal (op : Opcode) (request : Header) : Header where
  magic := 0x81
  opcode := op.syncForm.byte
  keyLength := 0
  extrasLength := 0
  dataType := 0
  status := 0x0004
  totalBody := 0
  echo := request.echo
  cas := 0

theorem Reply.invalidArguments_eq (op : Opcode) (request : Header) :
    Reply.invalidArguments op request = .send (request.refusal op).encode :=
  rfl

/-- The other command is of the same kind, and always answers. -/
structure Opcode.Answering (op sync : Opcode) : Prop where
  loud : sync.isQuiet = false
  isLookup : sync.isLookup = op.isLookup
  isPut : sync.isPut = op.isPut
  returnsKey : sync.returnsKey = op.returnsKey

theorem Opcode.syncForm_answering {op : Opcode} (h : (op.isLookup || op.isPut) = true) :
    op.Answering op.syncForm := by
  cases op <;> simp [isLookup, isPut] at h <;> exact ⟨rfl, rfl, rfl, rfl⟩

namespace Relay

/-- A keyed request that overruns its body is refused alike by a relay, whoever owns the key and however backends are
reached, and by a server, whatever it stores: by a header that says so under the command's answering form.  The relay
turns to no backend, and its pool stays as it is; so does the store. -/
theorem overrun_refused_alike {κ ν : Type} (plane : Backplane κ ν) (owner : Octets → Address) (now : Nat)
    (pool : Pool Address κ) (world : ν) (store : Store) {request : Packet} {op : Opcode}
    (hcommand : request.header.command? = some op) (hop : (op.isLookup || op.isPut) = true)
    (hlong : request.Overruns) :
    let reply := Reply.send (request.header.refusal op).encode
    route plane owner now request pool world =
        { reply := reply, pool := pool, world := world, closed := [] } ∧
      Service.answer request now store = (.ok reply, store) ∧
      (request.header.refusal op).encode.length = 24 ∧ op.Answering op.syncForm := by
  have hkey : request.key? = none := Packet.key?_eq_none_iff.mpr hlong
  have herrand : errand request = .settled (.invalidArguments op request.header) := by
    rw [errand_of_keyed hcommand hop, hkey]
  refine ⟨?_, ?_, Header.length_encode _, Opcode.syncForm_answering hop⟩
  · rw [route, herrand, Reply.invalidArguments_eq]
  · rw [answer_of_no_key hcommand hop hkey, Reply.invalidArguments_eq]

/-- A quiet request to store whose extras alone overrun its body. -/
theorem overrun_refused_alike_extras :
    let request : Packet := ⟨{ magic := 0x80, opcode := 0x11, extrasLength := 7, echo := 42 }, [1, 2]⟩
    let routed := route (Fleet.backplane .shortRead) (fun _ => ⟨.v4 10 0 0 1, 11211⟩) 5 request
      { lifetime := 60 } { arrivals := [] }
    routed.reply =
        .send [0x81, 0x01, 0, 0, 0, 0, 0, 4, 0, 0, 0, 0, 0, 0, 0, 42, 0, 0, 0, 0, 0, 0, 0, 0] ∧
      (Service.answer request 5 {}).1 = .ok routed.reply := by
  have hlong : Packet.Overruns
      ⟨{ magic := 0x80, opcode := 0x11, extrasLength := 7, echo := 42 }, [1, 2]⟩ := by
    rw [Packet.Overruns]
    decide
  have hcommand : Header.command? { magic := 0x80, opcode := 0x11, extrasLength := 7, echo := 42 } =
      some .setQ := rfl
  obtain ⟨hrouted, hanswer, -⟩ := overrun_refused_alike (Fleet.backplane .shortRead)
    (fun _ => ⟨.v4 10 0 0 1, 11211⟩) 5 { lifetime := 60 } { arrivals := [] } {} hcommand rfl hlong
  intro request routed
  have hreply : routed.reply = .send (request.header.refusal .setQ).encode := congrArg (·.reply) hrouted
  have hencoded : (request.header.refusal .setQ).encode =
      [0x81, 0x01, 0, 0, 0, 0, 0, 4, 0, 0, 0, 0, 0, 0, 0, 42, 0, 0, 0, 0, 0, 0, 0, 0] := by decide
  rw [hreply]
  exact ⟨congrArg Reply.send hencoded, congrArg (·.1) hanswer⟩

end Relay

end ShardedCache
