import ShardedCache.Packet

/-! `Frame.cut` takes one request off the front of what has been received, once all of it is there, and
`Frame.cutAll` as many as there are. -/

namespace ShardedCache.Frame

/-- The longest body that is accepted where nothing else is said. -/
def defaultLimit : Nat := 16777216

/-- Takes one request off the front of the buffer; the second part is what stays buffered.

`none` until the announced body has arrived.  A body announced beyond the limit is refused before it
arrives and stays in the buffer; a frame that is no request is refused once complete, and is gone. -/
def cut (limit : Nat) (buffer : Octets) : Except Fault (Option Packet) × Octets :=
  if buffer.length < Header.size then (.ok none, buffer)
  else
    match Header.peekTotalBody? buffer with
    | none => (.ok none, buffer)
    | some totalBody =>
      let announced := totalBody.toNat
      -- The limit is judged before the body has arrived, the magic only after.
      if limit < announced then
        (.error (.framing (.bodyTooLong announced limit)), buffer)
      else if buffer.length < Header.size + announced then (.ok none, buffer)
      else
        let frame := buffer.take (Header.size + announced)
        let rest := buffer.drop (Header.size + announced)
        match Header.decode frame with
        | (.error fault, _) => (.error fault, rest)
        | (.ok header, body) =>
          if header.magic = Header.requestMagic then (.ok (some { header, body }), rest)
          else (.error (.framing (.wrongMagic header.magic)), rest)

theorem length_snd_cut_lt {limit : Nat} {buffer rest : Octets} {p : Packet}
    (h : cut limit buffer = (.ok (some p), rest)) : rest.length < buffer.length := by
  simp only [cut] at h
  split at h
  · simp at h
  · rename_i hsize
    split at h
    · simp at h
    · split at h
      · simp at h
      · split at h
        · simp at h
        · split at h
          · simp at h
          · split at h
            · obtain ⟨-, rfl⟩ := Prod.mk.inj h
              have hpos : 0 < Header.size := by decide
              simp only [List.length_drop]
              omega
            · simp at h

/-- How a buffer ends after its complete requests: with a frame still on its way, or with a
violation of the format. -/
inductive Ending where
  | incomplete (rest : Octets)
  | violated (fault : Fault)
deriving DecidableEq, Repr

/-- Every complete request at the front of the buffer, in order, and what follows them. -/
def cutAll (limit : Nat) (buffer : Octets) : List Packet × Ending :=
  match _h : cut limit buffer with
  | (.ok none, rest) => ([], .incomplete rest)
  | (.error fault, _) => ([], .violated fault)
  | (.ok (some p), rest) =>
    let (packets, ending) := cutAll limit rest
    (p :: packets, ending)
termination_by buffer.length
decreasing_by exact length_snd_cut_lt _h

end ShardedCache.Frame
