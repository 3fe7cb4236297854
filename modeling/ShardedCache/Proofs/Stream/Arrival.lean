import ShardedCache.Proofs.Packet.HeaderCodec
import ShardedCache.Stream.Framed

/-! Of a read script only `Inlet.arriving` counts: the octets that come before a read fails for good or meets the end
of the stream. -/

namespace ShardedCache

def Packet.Complete (p : Packet) : Prop :=
  p.header.totalBody.toNat = p.body.length

theorem Packet.complete_of_announced (header : Header) {tail : Octets}
    (h : header.totalBody.toNat ≤ tail.length) :
    Packet.Complete ⟨header, tail.take header.totalBody.toNat⟩ ∧
      header.encode ++ tail =
        Packet.encode ⟨header, tail.take header.totalBody.toNat⟩ ++ tail.drop header.totalBody.toNat := by
  refine ⟨(List.length_take_of_le h).symm, ?_⟩
  rw [Packet.encode, List.append_assoc, List.take_append_drop]

/-- No complete packet opens another one. -/
theorem Packet.Complete.eq_of_encode_append {p r : Packet} {more rest : Octets} (hp : p.Complete)
    (hr : r.Complete) (h : p.encode ++ more = r.encode ++ rest) : p = r := by
  simp only [Packet.encode, List.append_assoc] at h
  have hsize : p.header.encode.length = r.header.encode.length := by
    rw [Header.length_encode, Header.length_encode]
  obtain ⟨hheader, hbody⟩ := List.append_inj h hsize
  have heq := Header.encode_injective hheader
  have hlen : p.body.length = r.body.length := by
    rw [← hp, ← hr, heq]
  have hbodies := (List.append_inj hbody hlen).1
  obtain ⟨_, _⟩ := p
  obtain ⟨_, _⟩ := r
  exact congr (congrArg Packet.mk heq) hbodies

def ReadEvent.flows : ReadEvent → Bool
  | .data chunk => chunk ≠ []
  | .fail error => error.kind = .interrupted

namespace Inlet

/-- The octets that reads get before one of them fails for good or finds the end of the stream. -/
def arriving : Inlet → Octets
  | [] => []
  | .data chunk :: rest => if chunk = [] then [] else chunk ++ arriving rest
  | .fail error :: rest => if error.kind = .interrupted then arriving rest else []

theorem arriving_append_of_flows (front back : Inlet) (h : ∀ event ∈ front, event.flows) :
    arriving (front ++ back) = arriving front ++ arriving back := by
  induction front with
  | nil => rfl
  | cons event front ih =>
    have hfront := ih fun event he => h event (List.mem_cons_of_mem _ he)
    have hevent := h event List.mem_cons_self
    cases event with
    | data chunk =>
      have hne : chunk ≠ [] := by simpa [ReadEvent.flows] using hevent
      simp only [List.cons_append, arriving, if_neg hne, hfront, List.append_assoc]
    | fail error =>
      have hkind : error.kind = .interrupted := by simpa [ReadEvent.flows] using hevent
      simp only [List.cons_append, arriving, if_pos hkind, hfront]

theorem arriving_cons_of_not_flows {event : ReadEvent} (rest : Inlet) (h : ¬ event.flows = true) :
    arriving (event :: rest) = [] := by
  cases event with
  | data chunk =>
    have hchunk : chunk = [] := by simpa [ReadEvent.flows] using h
    rw [arriving, if_pos hchunk]
  | fail error =>
    have hkind : ¬ error.kind = .interrupted := by simpa [ReadEvent.flows] using h
    rw [arriving, if_neg hkind]

theorem arriving_append_isPrefix (front back : Inlet) :
    arriving (front ++ back) <+: arriving front ++ arriving back := by
  induction front with
  | nil => exact List.prefix_rfl
  | cons event front ih =>
    cases event with
    | data chunk =>
      by_cases hchunk : chunk = []
      · simp only [List.cons_append, arriving, if_pos hchunk]
        exact List.nil_prefix
      · simp only [List.cons_append, arriving, if_neg hchunk, List.append_assoc]
        exact (List.prefix_append_right_inj chunk).mpr ih
    | fail error =>
      by_cases hkind : error.kind = .interrupted
      · simpa only [List.cons_append, arriving, if_pos hkind] using ih
      · simp only [List.cons_append, arriving, if_neg hkind]
        exact List.nil_prefix

theorem readExact_of_le {n : Nat} {inlet : Inlet} (h : n ≤ (arriving inlet).length) :
    ∃ rest, readExact n inlet = (.ok ((arriving inlet).take n), rest) ∧
      arriving rest = (arriving inlet).drop n := by
  induction n, inlet using readExact.induct with
  | case1 inlet => exact ⟨inlet, by simp [readExact], rfl⟩
  | case2 n => simp [arriving] at h
  | case3 n error rest hkind ih =>
    simp only [arriving, if_pos hkind] at h ⊢
    rw [readExact, if_pos hkind]
    exact ih h
  | case4 n error rest hkind => simp [arriving, hkind] at h
  | case5 n rest => simp [arriving] at h
  | case6 n chunk rest hchunk hshort _ _ _ ih =>
    have hlen : chunk.length ≤ n + 1 := List.drop_eq_nil_iff.mp hshort
    simp only [arriving, if_neg hchunk, List.length_append] at h ⊢
    obtain ⟨left, hread, hleft⟩ := ih (by omega)
    refine ⟨left, ?_, ?_⟩
    · rw [readExact, if_neg hchunk, if_pos hshort, hread]
      rw [List.take_append, List.take_of_length_le hlen]
      rfl
    · rw [hleft, List.drop_append, List.drop_of_length_le hlen, List.nil_append]
  | case7 n chunk rest hchunk hlong =>
    have hlen : n + 1 < chunk.length :=
      Nat.lt_of_not_le fun hle => hlong (List.drop_eq_nil_iff.mpr hle)
    simp only [arriving, if_neg hchunk] at h ⊢
    refine ⟨.data (chunk.drop (n + 1)) :: rest, ?_, ?_⟩
    · rw [readExact, if_neg hchunk, if_neg hlong, List.take_append_of_le_length (by omega)]
    · rw [arriving, if_neg hlong, List.drop_append_of_le_length (by omega)]

theorem readExact_of_lt {n : Nat} {inlet : Inlet} (h : (arriving inlet).length < n) :
    ∃ error rest, readExact n inlet = (.error error, rest) := by
  induction n, inlet using readExact.induct with
  | case1 inlet => omega
  | case2 n => exact ⟨_, _, by rw [readExact]⟩
  | case3 n error rest hkind ih =>
    simp only [arriving, if_pos hkind] at h
    rw [readExact, if_pos hkind]
    exact ih h
  | case4 n error rest hkind => exact ⟨error, rest, by rw [readExact, if_neg hkind]⟩
  | case5 n rest => exact ⟨_, rest, by rw [readExact, if_pos rfl]⟩
  | case6 n chunk rest hchunk hshort _ _ _ ih =>
    simp only [arriving, if_neg hchunk, List.length_append] at h
    obtain ⟨error, left, hread⟩ := ih (by omega)
    exact ⟨error, left, by rw [readExact, if_neg hchunk, if_pos hshort, hread]; rfl⟩
  | case7 n chunk rest hchunk hlong =>
    have hlen : n + 1 < chunk.length :=
      Nat.lt_of_not_le fun hle => hlong (List.drop_eq_nil_iff.mpr hle)
    simp only [arriving, if_neg hchunk, List.length_append] at h
    omega

theorem arriving_of_readExact {n : Nat} {inlet rest : Inlet} {bs : Octets}
    (h : readExact n inlet = (.ok bs, rest)) :
    arriving inlet = bs ++ arriving rest ∧ bs.length = n := by
  by_cases hlen : n ≤ (arriving inlet).length
  · obtain ⟨left, hread, hleft⟩ := readExact_of_le hlen
    rw [h] at hread
    simp only [Prod.mk.injEq, Except.ok.injEq] at hread
    obtain ⟨rfl, rfl⟩ := hread
    exact ⟨by rw [hleft, List.take_append_drop], List.length_take_of_le hlen⟩
  · obtain ⟨error, left, hread⟩ := readExact_of_lt (Nat.lt_of_not_le hlen)
    rw [h] at hread
    simp at hread

def total (lengths : List Nat) : Nat :=
  lengths.foldr (· + ·) 0

theorem total_pieces (size n : Nat) : total (pieces size n) = n := by
  have hfull (k : Nat) (last : List Nat) :
      total (List.replicate k size ++ last) = size * k + total last := by
    induction k with
    | zero => simp
    | succ k ih =>
      rw [List.replicate_succ, List.cons_append, total, List.foldr_cons, ← total, ih, Nat.mul_succ]
      omega
  rw [pieces, hfull]
  split
  · rename_i hmod
    have hdiv := Nat.div_add_mod n size
    simp only [total, List.foldr_nil]
    omega
  · simp only [total, List.foldr_cons, List.foldr_nil]
    exact Nat.div_add_mod n size

theorem readEach_of_le {lengths : List Nat} {inlet : Inlet}
    (h : total lengths ≤ (arriving inlet).length) :
    ∃ rest, readEach lengths inlet = (.ok ((arriving inlet).take (total lengths)), rest) ∧
      arriving rest = (arriving inlet).drop (total lengths) := by
  induction lengths generalizing inlet with
  | nil => exact ⟨inlet, by simp [readEach, total], rfl⟩
  | cons n lengths ih =>
    have htotal : total (n :: lengths) = n + total lengths := rfl
    rw [htotal] at h ⊢
    have hpiece : n ≤ (arriving inlet).length := by omega
    obtain ⟨left, hread, hleft⟩ := readExact_of_le hpiece
    have hothers : total lengths ≤ (arriving left).length := by
      rw [hleft, List.length_drop]
      omega
    obtain ⟨rest, htail, hrest⟩ := ih hothers
    refine ⟨rest, ?_, ?_⟩
    · simp only [readEach, hread, htail, hleft]
      rw [List.take_add]
      rfl
    · rw [hrest, hleft, List.drop_drop]

theorem arriving_of_readEach {lengths : List Nat} {inlet rest : Inlet} {bs : Octets}
    (h : readEach lengths inlet = (.ok bs, rest)) :
    arriving inlet = bs ++ arriving rest ∧ bs.length = total lengths := by
  induction lengths generalizing inlet bs with
  | nil =>
    simp only [readEach, Prod.mk.injEq, Except.ok.injEq] at h
    obtain ⟨rfl, rfl⟩ := h
    exact ⟨rfl, rfl⟩
  | cons n lengths ih =>
    match hread : readExact n inlet with
    | (.error error, left) => simp [readEach, hread] at h
    | (.ok piece, left) =>
      match htail : readEach lengths left with
      | (.error error, last) => simp [readEach, hread, htail, Except.map] at h
      | (.ok tail, last) =>
        simp only [readEach, hread, htail, Except.map, Prod.mk.injEq, Except.ok.injEq] at h
        obtain ⟨rfl, rfl⟩ := h
        obtain ⟨hpiece, hn⟩ := arriving_of_readExact hread
        obtain ⟨hleft, hlen⟩ := ih htail
        refine ⟨by rw [hpiece, hleft, List.append_assoc], ?_⟩
        rw [List.length_append, hn, hlen]
        rfl

/-- A frame within the limit that arrives is read, octet for octet, and nothing behind it. -/
theorem readFrame_of_arriving {limit : Nat} {inlet : Inlet} {p : Packet} {more : Octets}
    (hp : p.Complete) (hlimit : p.header.totalBody.toNat ≤ limit)
    (h : arriving inlet = p.encode ++ more) :
    ∃ rest, readFrame limit inlet = (.ok p.encode, rest) ∧ arriving rest = more := by
  have hsplit : arriving inlet = p.header.encode ++ (p.body ++ more) := by
    rw [h, Packet.encode, List.append_assoc]
  have hsize : Header.size ≤ (arriving inlet).length := by
    rw [hsplit, List.length_append, Header.length_encode]
    omega
  obtain ⟨left, hread, hleft⟩ := readExact_of_le hsize
  rw [hsplit, ← Header.length_encode p.header, List.take_left] at hread
  rw [hsplit, ← Header.length_encode p.header, List.drop_left] at hleft
  have hpeek : Header.peekTotalBody? p.header.encode = some p.header.totalBody := by
    simpa using Header.peekTotalBody?_encode_append p.header []
  have hwhole : total (pieces pieceSize p.header.totalBody.toNat) ≤ (arriving left).length := by
    rw [total_pieces, hleft, List.length_append, hp]
    omega
  obtain ⟨rest, hbody, hrest⟩ := readEach_of_le hwhole
  rw [total_pieces, hleft, hp, List.take_left] at hbody
  rw [total_pieces, hleft, hp, List.drop_left] at hrest
  refine ⟨rest, ?_, hrest⟩
  rw [Header.length_encode] at hread
  simp only [readFrame, hread, hpeek, Option.getD_some, if_neg (Nat.not_lt.mpr hlimit)]
  rw [hp, hbody]
  rfl

/-- A frame that is read is complete, within the limit, and the first that arrives. -/
theorem arriving_of_readFrame {limit : Nat} {inlet rest : Inlet} {frame : Octets}
    (h : readFrame limit inlet = (.ok frame, rest)) :
    ∃ p : Packet, p.Complete ∧ p.header.totalBody.toNat ≤ limit ∧ frame = p.encode ∧
      arriving inlet = frame ++ arriving rest := by
  match hread : readExact Header.size inlet with
  | (.error error, left) => simp [readFrame, hread] at h
  | (.ok raw, left) =>
    obtain ⟨hraw, hlen⟩ := arriving_of_readExact hread
    obtain ⟨header, tail, rfl⟩ := Header.exists_encode_append (Nat.le_of_eq hlen.symm)
    have htail : tail = [] := by
      rw [List.length_append, Header.length_encode] at hlen
      exact List.length_eq_zero_iff.mp (by omega)
    subst htail
    have hpeek : Header.peekTotalBody? (header.encode ++ []) = some header.totalBody :=
      Header.peekTotalBody?_encode_append header []
    simp only [readFrame, hread, hpeek, Option.getD_some] at h
    split at h
    · simp at h
    rename_i hlimit
    match hbody : readEach (pieces pieceSize header.totalBody.toNat) left with
    | (.error error, last) => simp [hbody] at h
    | (.ok body, last) =>
      obtain ⟨hleft, hsize⟩ := arriving_of_readEach hbody
      rw [total_pieces] at hsize
      simp only [hbody, List.append_nil, Prod.mk.injEq, Except.ok.injEq] at h
      obtain ⟨rfl, rfl⟩ := h
      refine ⟨⟨header, body⟩, hsize.symm, Nat.le_of_not_lt hlimit, rfl, ?_⟩
      rw [hraw, hleft, List.append_nil, List.append_assoc]

/-- Where at most one frame arrives, a frame that is read is that one, and nothing is left behind it. -/
theorem readFrame_of_isPrefix {limit : Nat} {inlet reads rest : Inlet} {frame : Octets} {p : Packet}
    (hdrained : arriving inlet = []) (hp : p.Complete) (hreads : arriving reads <+: p.encode)
    (h : readFrame limit (inlet ++ reads) = (.ok frame, rest)) :
    arriving reads = frame ∧ arriving rest = [] ∧ frame ≠ [] := by
  obtain ⟨read, hread, -, rfl, harrive⟩ := arriving_of_readFrame h
  have hprefix := arriving_append_isPrefix inlet reads
  rw [harrive, hdrained, List.nil_append] at hprefix
  -- No frame opens another, so what was read is the frame that arrives.
  obtain ⟨more, hmore⟩ := hprefix.trans hreads
  rw [List.append_assoc] at hmore
  have heq : read = p := hread.eq_of_encode_append hp (hmore.trans (List.append_nil p.encode).symm)
  subst heq
  have hnone : arriving rest ++ more = [] := List.append_right_eq_self.mp hmore
  have hrest : arriving rest = [] := (List.append_eq_nil_iff.mp hnone).1
  rw [hrest, List.append_nil] at hprefix
  refine ⟨hreads.eq_of_length_le hprefix.length_le, hrest, ?_⟩
  intro hempty
  have hlen := congrArg List.length hempty
  have hsize : 0 < Header.size := by decide
  rw [Packet.length_encode, Packet.encodedLength, List.length_nil] at hlen
  omega

theorem flows_of_readExact (n : Nat) {inlet : Inlet} (h : ∀ event ∈ inlet, event.flows) :
    ∀ event ∈ (readExact n inlet).2, event.flows := by
  induction n, inlet using readExact.induct with
  | case1 inlet => simpa only [readExact] using h
  | case2 n => simp [readExact]
  | case3 n error rest hkind ih =>
    rw [readExact, if_pos hkind]
    exact ih fun event he => h event (List.mem_cons_of_mem _ he)
  | case4 n error rest hkind =>
    have hevent := h (.fail error) List.mem_cons_self
    simp [ReadEvent.flows, hkind] at hevent
  | case5 n rest =>
    have hevent := h (.data []) List.mem_cons_self
    simp [ReadEvent.flows] at hevent
  | case6 n chunk rest hchunk hshort tail left hread ih =>
    have hrest := ih fun event he => h event (List.mem_cons_of_mem _ he)
    rw [hread] at hrest
    simp only [readExact, if_neg hchunk, if_pos hshort, hread]
    exact hrest
  | case7 n chunk rest hchunk hlong =>
    rw [readExact, if_neg hchunk, if_neg hlong]
    intro event hevent
    rcases List.mem_cons.mp hevent with rfl | hevent
    · simpa [ReadEvent.flows] using hlong
    · exact h event (List.mem_cons_of_mem _ hevent)

theorem flows_of_readEach (lengths : List Nat) {inlet : Inlet} (h : ∀ event ∈ inlet, event.flows) :
    ∀ event ∈ (readEach lengths inlet).2, event.flows := by
  induction lengths generalizing inlet with
  | nil => exact h
  | cons n lengths ih =>
    have hpiece := flows_of_readExact n h
    match hread : readExact n inlet with
    | (.error error, rest) =>
      rw [hread] at hpiece
      simpa only [readEach, hread] using hpiece
    | (.ok piece, rest) =>
      rw [hread] at hpiece
      simpa only [readEach, hread] using ih hpiece

theorem flows_of_readFrame (limit : Nat) {inlet : Inlet} (h : ∀ event ∈ inlet, event.flows) :
    ∀ event ∈ (readFrame limit inlet).2, event.flows := by
  have hheader := flows_of_readExact Header.size h
  match hread : readExact Header.size inlet with
  | (.error error, rest) =>
    rw [hread] at hheader
    simpa only [readFrame, hread] using hheader
  | (.ok header, rest) =>
    rw [hread] at hheader
    simp only [readFrame, hread]
    split
    · exact hheader
    · have hbody := flows_of_readEach
        (pieces pieceSize ((Header.peekTotalBody? header).getD 0).toNat) hheader
      match hleft : readEach (pieces pieceSize ((Header.peekTotalBody? header).getD 0).toNat) rest with
      | (.error error, last) =>
        rw [hleft] at hbody
        exact hbody
      | (.ok body, last) =>
        rw [hleft] at hbody
        exact hbody

end Inlet

end ShardedCache
