import ShardedCache.Proofs.Service.Responses
import ShardedCache.Proofs.Session.Account

namespace ShardedCache

namespace Frame

theorem length_of_decode {bs rest : Octets} {header : Header}
    (h : Header.decode bs = (.ok header, rest)) : rest.length < bs.length := by
  by_cases hshort : bs.length < Header.size
  · simp [Header.decode, hshort] at h
  obtain ⟨front, tail, rfl⟩ := Header.exists_encode_append (Nat.le_of_not_lt hshort)
  rw [Header.decode_encode] at h
  obtain ⟨-, rfl⟩ := Prod.mk.inj h
  have hpos : 0 < Header.size := by decide
  rw [List.length_append, Header.length_encode]
  omega

/-- Cuts octets into packets by the body lengths that their headers announce, and gives what is left. -/
def split (bs : Octets) : List Packet × Octets :=
  match _h : Header.decode bs with
  | (.error _, _) => ([], bs)
  | (.ok header, rest) =>
    if rest.length < header.totalBody.toNat then ([], bs)
    else
      let (packets, left) := split (rest.drop header.totalBody.toNat)
      ({ header, body := rest.take header.totalBody.toNat } :: packets, left)
termination_by bs.length
decreasing_by
  have hlt := length_of_decode _h
  rw [List.length_drop]
  omega

end Frame

/-- Responses in the order of the requests that they answer.  Only a quiet request goes without one. -/
inductive Aligned : List Packet → List Packet → Prop
  | nil : Aligned [] []
  | answered {request response : Packet} {requests responses : List Packet} :
    Responds request response → Aligned requests responses →
      Aligned (request :: requests) (response :: responses)
  | unanswered {request : Packet} {requests responses : List Packet} :
    request.isQuiet = true → Aligned requests responses → Aligned (request :: requests) responses

theorem Aligned.complete {requests responses : List Packet} (h : Aligned requests responses) :
    ∀ response ∈ responses, response.Complete := by
  induction h with
  | nil => exact nofun
  | answered hresponds _ ih =>
    intro response hresponse
    rcases List.mem_cons.mp hresponse with rfl | hresponse
    · exact hresponds.complete
    · exact ih response hresponse
  | unanswered _ _ ih => exact ih

namespace Service

/-- Answers from the store, the `n`-th request at the time that the clock shows then. -/
def handler (clock : Nat → Nat) : Handler (Store × Nat) :=
  fun request (store, n) =>
    let (reply, store) := answer request (clock n) store
    (reply, (store, n + 1))

end Service

namespace Session

end Session

end ShardedCache
