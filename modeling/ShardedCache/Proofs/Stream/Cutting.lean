import ShardedCache.Proofs.Frame.Verdicts

/-! A frame that is read off a stream, piece by piece, is the one that a cut takes off a buffer with everything that is
still to arrive. -/

namespace ShardedCache

namespace Inlet

/-- The script brings these octets, in chunks and with interruptions, and then the stream ends. -/
structure Presents (inlet : Inlet) (s : Octets) : Prop where
  flows : ∀ event ∈ inlet, event.flows
  pending : inlet.pending = s

variable {inlet : Inlet} {s : Octets} {limit : Nat}

theorem arriving_eq_pending (h : ∀ event ∈ inlet, event.flows) : arriving inlet = inlet.pending := by
  induction inlet with
  | nil => rfl
  | cons event rest ih =>
    have hrest := ih fun other hother => h other (List.mem_cons_of_mem _ hother)
    have hevent := h event List.mem_cons_self
    cases event with
    | data chunk =>
      have hchunk : chunk ≠ [] := by simpa [ReadEvent.flows] using hevent
      rw [arriving, if_neg hchunk, hrest]
      rfl
    | fail error =>
      have hkind : error.kind = .interrupted := by simpa [ReadEvent.flows] using hevent
      rw [arriving, if_pos hkind, hrest]
      rfl

theorem Presents.arriving (h : inlet.Presents s) : inlet.arriving = s := by
  rw [arriving_eq_pending h.flows, h.pending]

theorem presents_of_arriving (hflows : ∀ event ∈ inlet, event.flows) (h : inlet.arriving = s) :
    inlet.Presents s :=
  ⟨hflows, (arriving_eq_pending hflows).symm.trans h⟩

theorem readExact_of_end {n : Nat} (hflows : ∀ event ∈ inlet, event.flows)
    (h : (arriving inlet).length < n) : readExact n inlet = (.error .shortRead, []) := by
  induction n, inlet using readExact.induct with
  | case1 inlet => omega
  | case2 n => rw [readExact]
  | case3 n error rest hkind ih =>
    simp only [arriving, if_pos hkind] at h
    rw [readExact, if_pos hkind]
    exact ih (fun event hevent => hflows event (List.mem_cons_of_mem _ hevent)) h
  | case4 n error rest hkind =>
    have hevent := hflows (.fail error) List.mem_cons_self
    simp [ReadEvent.flows, hkind] at hevent
  | case5 n rest =>
    have hevent := hflows (.data []) List.mem_cons_self
    simp [ReadEvent.flows] at hevent
  | case6 n chunk rest hchunk hshort _ _ _ ih =>
    simp only [arriving, if_neg hchunk, List.length_append] at h
    have hrest := ih (fun event hevent => hflows event (List.mem_cons_of_mem _ hevent)) (by omega)
    rw [readExact, if_neg hchunk, if_pos hshort, hrest]
    rfl
  | case7 n chunk rest hchunk hlong =>
    have hlen : n + 1 < chunk.length :=
      Nat.lt_of_not_le fun hle => hlong (List.drop_eq_nil_iff.mpr hle)
    simp only [arriving, if_neg hchunk, List.length_append] at h
    omega

theorem readExact_of_presents {n : Nat} (h : inlet.Presents s) (hlen : n ≤ s.length) :
    ∃ rest, readExact n inlet = (.ok (s.take n), rest) ∧ rest.Presents (s.drop n) := by
  rw [← h.arriving] at hlen
  obtain ⟨rest, hread, hrest⟩ := readExact_of_le hlen
  have hflows := flows_of_readExact n h.flows
  rw [hread] at hflows
  rw [h.arriving] at hread hrest
  exact ⟨rest, hread, presents_of_arriving hflows hrest⟩

theorem readEach_of_presents {lengths : List Nat} (h : inlet.Presents s)
    (hlen : total lengths ≤ s.length) :
    ∃ rest, readEach lengths inlet = (.ok (s.take (total lengths)), rest) ∧
      rest.Presents (s.drop (total lengths)) := by
  rw [← h.arriving] at hlen
  obtain ⟨rest, hread, hrest⟩ := readEach_of_le hlen
  have hflows := flows_of_readEach lengths h.flows
  rw [hread] at hflows
  rw [h.arriving] at hread hrest
  exact ⟨rest, hread, presents_of_arriving hflows hrest⟩

theorem readEach_of_end {lengths : List Nat} (h : inlet.Presents s) (hlen : s.length < total lengths) :
    readEach lengths inlet = (.error .shortRead, []) := by
  induction lengths generalizing inlet s with
  | nil => simp [total] at hlen
  | cons n lengths ih =>
    have htotal : total (n :: lengths) = n + total lengths := rfl
    by_cases hpiece : n ≤ s.length
    · obtain ⟨rest, hread, hrest⟩ := readExact_of_presents h hpiece
      have hlater : (s.drop n).length < total lengths := by
        rw [List.length_drop]
        omega
      rw [readEach, hread]
      simp only [ih hrest hlater]
      rfl
    · have hshort : (Inlet.arriving inlet).length < n := by
        rw [h.arriving]
        omega
      rw [readEach, readExact_of_end h.flows hshort]

theorem readFrame_of_short (h : inlet.Presents s) (hshort : s.length < Header.size) :
    readFrame limit inlet = (.error (.io .shortRead), []) := by
  rw [← h.arriving] at hshort
  simp only [readFrame, readExact_of_end h.flows hshort]

/-- Once a header is there, reading is decided by its limit and by how much is to follow. -/
theorem readFrame_of_header (limit : Nat) {header : Header} {tail : Octets}
    (h : inlet.Presents (header.encode ++ tail)) :
    ∃ after, readFrame limit inlet =
        (if limit < header.totalBody.toNat then
          .error (.framing (.bodyTooLong header.totalBody.toNat limit))
        else if tail.length < header.totalBody.toNat then .error (.io .shortRead)
        else .ok (header.encode ++ tail.take header.totalBody.toNat), after) ∧
      (limit < header.totalBody.toNat → after.Presents tail) ∧
      (header.totalBody.toNat ≤ limit → header.totalBody.toNat ≤ tail.length →
        after.Presents (tail.drop header.totalBody.toNat)) := by
  have hsize : Header.size ≤ (header.encode ++ tail).length := by
    rw [List.length_append, Header.length_encode]
    omega
  obtain ⟨rest, hread, hrest⟩ := readExact_of_presents h hsize
  rw [← Header.length_encode header, List.take_left] at hread
  rw [← Header.length_encode header, List.drop_left] at hrest
  rw [Header.length_encode] at hread
  have hpeek : Header.peekTotalBody? header.encode = some header.totalBody := by
    simpa using Header.peekTotalBody?_encode_append header []
  have htotal := total_pieces pieceSize header.totalBody.toNat
  by_cases hlimit : limit < header.totalBody.toNat
  · refine ⟨rest, ?_, fun _ => hrest, fun hle => absurd hle (Nat.not_le.mpr hlimit)⟩
    simp only [readFrame, hread, hpeek, Option.getD_some, if_pos hlimit]
  · by_cases hshort : tail.length < header.totalBody.toNat
    · refine ⟨[], ?_, fun hlt => absurd hlt hlimit, fun _ hle => absurd hle (Nat.not_le.mpr hshort)⟩
      have hbody := readEach_of_end hrest (htotal.symm ▸ hshort)
      simp only [readFrame, hread, hpeek, Option.getD_some, if_neg hlimit, if_pos hshort, hbody]
    · have hwhole : total (pieces pieceSize header.totalBody.toNat) ≤ tail.length := by
        rw [htotal]
        omega
      obtain ⟨after, hbody, hafter⟩ := readEach_of_presents hrest hwhole
      rw [htotal] at hbody hafter
      refine ⟨after, ?_, fun hlt => absurd hlt hlimit, fun _ _ => hafter⟩
      simp only [readFrame, hread, hpeek, Option.getD_some, if_neg hlimit, if_neg hshort, hbody]

theorem size_le_of_readFrame {rest : Inlet} {frame : Octets}
    (h : readFrame limit inlet = (.ok frame, rest)) : Header.size ≤ frame.length := by
  obtain ⟨p, -, -, rfl, -⟩ := arriving_of_readFrame h
  rw [Packet.length_encode, Packet.encodedLength]
  omega

theorem readFrame_of_presents {p : Packet} {more : Octets} (hp : p.Complete)
    (hlimit : p.header.totalBody.toNat ≤ limit) (h : inlet.Presents (p.encode ++ more)) :
    ∃ rest, readFrame limit inlet = (.ok p.encode, rest) ∧ rest.Presents more := by
  obtain ⟨rest, hread, hrest⟩ := readFrame_of_arriving hp hlimit h.arriving
  have hflows := flows_of_readFrame limit h.flows
  rw [hread] at hflows
  exact ⟨rest, hread, presents_of_arriving hflows hrest⟩

/-- The three ways in which a read and a cut go together.  A frame that is no request is read all the same, where the
cut takes it off and refuses it. -/
theorem readFrame_cut_cases (limit : Nat) (h : inlet.Presents s) :
    (∃ after, readFrame limit inlet = (.error (.io .shortRead), after) ∧
        Frame.cut limit s = (.ok none, s)) ∨
      (∃ after announced,
        readFrame limit inlet = (.error (.framing (.bodyTooLong announced limit)), after) ∧
          Frame.cut limit s = (.error (.framing (.bodyTooLong announced limit)), s) ∧
          after.Presents (s.drop Header.size)) ∨
      ∃ after p rest, readFrame limit inlet = (.ok p.encode, after) ∧ s = p.encode ++ rest ∧
        after.Presents rest ∧
        (Frame.cut limit s = (.ok (some p), rest) ∨
          Frame.cut limit s = (.error (.framing (.wrongMagic p.header.magic)), rest)) := by
  obtain ⟨verdict, answer, rest, hcomes⟩ := Frame.Comes.exists_of_buffer limit s
  have hcut := hcomes.cut_eq
  cases hcomes with
  | short hshort => exact .inl ⟨[], readFrame_of_short h hshort, hcut⟩
  | unfinished hlimit hbody =>
    obtain ⟨after, hread, -, -⟩ := readFrame_of_header limit h
    rw [if_neg (Nat.not_lt.mpr hlimit), if_pos hbody] at hread
    exact .inl ⟨after, hread, hcut⟩
  | @tooLong header tail hlimit =>
    obtain ⟨after, hread, hrefused, -⟩ := readFrame_of_header limit h
    rw [if_pos hlimit] at hread
    have hdrop : (header.encode ++ tail).drop Header.size = tail := by
      rw [← Header.length_encode header, List.drop_left]
    refine .inr (.inl ⟨after, _, hread, hcut, ?_⟩)
    rw [hdrop]
    exact hrefused hlimit
  | @taken p _ hp =>
    obtain ⟨after, hread, hafter⟩ := readFrame_of_presents hp.total hp.le_limit h
    exact .inr (.inr ⟨after, p, rest, hread, rfl, hafter, .inl hcut⟩)
  | @foreign p _ hp hlimit _ =>
    obtain ⟨after, hread, hafter⟩ := readFrame_of_presents hp hlimit h
    exact .inr (.inr ⟨after, p, rest, hread, rfl, hafter, .inr hcut⟩)

/-- What reading a frame makes of a stream that brings `s`, against what a cut makes of `s`. -/
structure ReadsAsCut (limit : Nat) (s : Octets) (read : Except Fault Octets × Inlet) : Prop where
  frame : ∀ frame, read.1 = .ok frame ↔
    (∃ p : Packet, (Frame.cut limit s).1 = .ok (some p) ∧ p.encode = frame) ∨
      ∃ magic, (Frame.cut limit s).1 = .error (.framing (.wrongMagic magic)) ∧
        s = frame ++ (Frame.cut limit s).2
  /-- The format is violated exactly if a cut fails and leaves everything, for the same reason. -/
  refused : ∀ fault, read.1 = .error fault ∧ fault.family = .framing ↔
    Frame.cut limit s = (.error fault, s)
  /-- The stream ends too early exactly if a cut waits for more. -/
  ended : (∃ error, read.1 = .error (.io error) ∧ error.kind = .unexpectedEnd) ↔
    (Frame.cut limit s).1 = .ok none
  consumed : ∀ frame, read.1 = .ok frame →
    s = frame ++ (Frame.cut limit s).2 ∧ read.2.Presents (Frame.cut limit s).2
  /-- Of a frame that is too long only the header is read. -/
  headerOnly : ∀ announced bound, read.1 = .error (.framing (.bodyTooLong announced bound)) →
    read.2.Presents (s.drop Header.size)

theorem readsAsCut_of_waiting {read : Except Fault Octets × Inlet}
    (hread : read.1 = .error (.io .shortRead)) (hcut : Frame.cut limit s = (.ok none, s)) :
    ReadsAsCut limit s read := by
  refine ⟨?_, ?_, ?_, ?_, ?_⟩ <;> simp only [hread, hcut]
  · simp
  · intro fault
    constructor
    · rintro ⟨⟨⟩, ⟨⟩⟩
    · intro hrefused
      cases hrefused
  · exact iff_of_true ⟨.shortRead, rfl, rfl⟩ trivial
  · intro frame hframe
    cases hframe
  · intro announced bound hlong
    cases hlong

theorem readsAsCut_of_tooLong {announced : Nat} {read : Except Fault Octets × Inlet}
    (hread : read.1 = .error (.framing (.bodyTooLong announced limit)))
    (hcut : Frame.cut limit s = (.error (.framing (.bodyTooLong announced limit)), s))
    (hrest : read.2.Presents (s.drop Header.size)) : ReadsAsCut limit s read := by
  refine ⟨?_, ?_, ?_, ?_, fun _ _ _ => hrest⟩ <;> simp only [hread, hcut]
  · simp
  · intro fault
    constructor
    · rintro ⟨⟨⟩, -⟩
      rfl
    · rintro ⟨⟩
      exact ⟨rfl, rfl⟩
  · simp
  · intro frame hframe
    cases hframe

theorem readsAsCut_of_taken {p : Packet} {rest : Octets} {read : Except Fault Octets × Inlet}
    (hread : read.1 = .ok p.encode) (hsplit : s = p.encode ++ rest) (hrest : read.2.Presents rest)
    (hcut : Frame.cut limit s = (.ok (some p), rest) ∨
      Frame.cut limit s = (.error (.framing (.wrongMagic p.header.magic)), rest)) :
    ReadsAsCut limit s read := by
  have hleft : (Frame.cut limit s).2 = rest := by
    rcases hcut with hcut | hcut <;> rw [hcut]
  refine ⟨?_, ?_, ?_, ?_, ?_⟩
  · intro frame
    rw [hread, hleft]
    constructor
    · rintro ⟨⟩
      rcases hcut with hcut | hcut
      · exact .inl ⟨p, by rw [hcut], rfl⟩
      · exact .inr ⟨p.header.magic, by rw [hcut], hsplit⟩
    · rintro (⟨other, hother, rfl⟩ | ⟨magic, -, hframe⟩)
      · rcases hcut with hcut | hcut
        · rw [hcut] at hother
          cases hother
          rfl
        · rw [hcut] at hother
          cases hother
      · have hsame : p.encode = frame := List.append_cancel_right (hsplit.symm.trans hframe)
        rw [hsame]
  · intro fault
    rw [hread]
    constructor
    · rintro ⟨⟨⟩, -⟩
    · intro hrefused
      have hall : s = rest := by rw [← hleft, hrefused]
      have hlen := congrArg List.length (hall.symm.trans hsplit)
      have hsize : 0 < Header.size := by decide
      rw [List.length_append, Packet.length_encode, Packet.encodedLength] at hlen
      omega
  · rw [hread]
    constructor
    · rintro ⟨error, ⟨⟩, -⟩
    · intro hwaits
      rcases hcut with hcut | hcut <;> rw [hcut] at hwaits <;> cases hwaits
  · rw [hread, hleft]
    rintro frame ⟨⟩
    exact ⟨hsplit, hrest⟩
  · rw [hread]
    intro announced bound hlong
    cases hlong

theorem readFrame_agrees (limit : Nat) (h : inlet.Presents s) :
    ReadsAsCut limit s (readFrame limit inlet) := by
  rcases readFrame_cut_cases limit h with
    ⟨after, hread, hcut⟩ | ⟨after, announced, hread, hcut, hrest⟩ |
      ⟨after, p, rest, hread, hsplit, hrest, hcut⟩ <;> rw [hread]
  · exact readsAsCut_of_waiting rfl hcut
  · exact readsAsCut_of_tooLong rfl hcut hrest
  · exact readsAsCut_of_taken rfl hsplit hrest hcut

def readFrames (limit : Nat) : Nat → Inlet → Except Fault (List Octets) × Inlet
  | 0, inlet => (.ok [], inlet)
  | n + 1, inlet =>
    match readFrame limit inlet with
    | (.error fault, rest) => (.error fault, rest)
    | (.ok frame, rest) =>
      let (frames, rest) := readFrames limit n rest
      (frames.map (frame :: ·), rest)

end Inlet

/-- Cut after cut takes one of these frames off the buffer, each a request or none. -/
inductive Frame.Sheds (limit : Nat) : Octets → List Octets → Octets → Prop
  | nil (s : Octets) : Sheds limit s [] s
  | cons {s frame rest : Octets} {frames : List Octets} (taken : s = frame ++ (cut limit s).2)
      (some : frame ≠ []) (later : Sheds limit (cut limit s).2 frames rest) :
      Sheds limit s (frame :: frames) rest

namespace Inlet

variable {inlet : Inlet} {s : Octets} {limit : Nat}

theorem readFrame_of_taken {frame : Octets} (h : inlet.Presents s)
    (htaken : s = frame ++ (Frame.cut limit s).2) (hsome : frame ≠ []) :
    (readFrame limit inlet).1 = .ok frame := by
  have hall (hleft : (Frame.cut limit s).2 = s) : frame = [] := by
    rw [hleft] at htaken
    exact List.self_eq_append_left.mp htaken
  rcases readFrame_cut_cases limit h with
    ⟨after, -, hcut⟩ | ⟨after, announced, -, hcut, -⟩ | ⟨after, p, rest, hread, hsplit, -, hcut⟩
  · exact absurd (hall (by rw [hcut])) hsome
  · exact absurd (hall (by rw [hcut])) hsome
  · have hleft : (Frame.cut limit s).2 = rest := by
      rcases hcut with hcut | hcut <;> rw [hcut]
    rw [hleft] at htaken
    rw [hread, List.append_cancel_right (hsplit.symm.trans htaken)]

/-- Reading frame after frame gives just what cut after cut takes off. -/
theorem readFrames_iff (h : inlet.Presents s) (n : Nat) (frames : List Octets) (rest : Octets) :
    (∃ after, readFrames limit n inlet = (.ok frames, after) ∧ after.Presents rest) ↔
      frames.length = n ∧ Frame.Sheds limit s frames rest := by
  -- Induction on the number of frames, with whatever the stream brings by then.
  induction n generalizing inlet s frames with
  | zero =>
    simp only [readFrames, List.length_eq_zero_iff]
    constructor
    · rintro ⟨after, ⟨⟩, hafter⟩
      have hsame : s = rest := h.pending.symm.trans hafter.pending
      subst hsame
      exact ⟨rfl, .nil s⟩
    · rintro ⟨rfl, hsheds⟩
      cases hsheds
      exact ⟨inlet, rfl, h⟩
  | succ n ih =>
    have hone := readFrame_agrees limit h
    constructor
    · rintro ⟨after, hreads, hafter⟩
      match hread : readFrame limit inlet with
      | (.error fault, left) => simp [readFrames, hread] at hreads
      | (.ok frame, left) =>
        rw [hread] at hone
        obtain ⟨htaken, hleft⟩ := hone.consumed frame rfl
        match hlater : readFrames limit n left with
        | (.error fault, last) => simp [readFrames, hread, hlater, Except.map] at hreads
        | (.ok others, last) =>
          simp only [readFrames, hread, hlater, Except.map, Prod.mk.injEq, Except.ok.injEq] at hreads
          obtain ⟨rfl, rfl⟩ := hreads
          obtain ⟨hlen, hsheds⟩ := (ih hleft others).mp ⟨last, hlater, hafter⟩
          refine ⟨by rw [List.length_cons, hlen], .cons htaken ?_ hsheds⟩
          have hsize : 0 < Header.size := by decide
          exact List.ne_nil_of_length_pos (Nat.lt_of_lt_of_le hsize (size_le_of_readFrame hread))
    · rintro ⟨hlen, hsheds⟩
      cases hsheds with
      | nil => cases hlen
      | @cons _ frame _ others htaken hsome hlater =>
        have hread := readFrame_of_taken h htaken hsome
        obtain ⟨-, hleft⟩ := hone.consumed frame hread
        obtain ⟨after, hreads, hafter⟩ := (ih hleft others).mpr ⟨Nat.succ.inj hlen, hlater⟩
        refine ⟨after, ?_, hafter⟩
        have hpair : readFrame limit inlet = (.ok frame, (readFrame limit inlet).2) :=
          Prod.ext hread rfl
        rw [readFrames, hpair]
        simp only [hreads]
        rfl

/-- However the octets of a stream are cut into chunks and however often reading them is interrupted, a frame is read
off it as it is cut off a buffer that holds them all, with the same refusals, and so are all frames that are read one
after the other. -/
theorem reads_as_cut (limit : Nat) (h : inlet.Presents s) :
    ReadsAsCut limit s (readFrame limit inlet) ∧
      ∀ n frames rest,
        (∃ after, readFrames limit n inlet = (.ok frames, after) ∧ after.Presents rest) ↔
          frames.length = n ∧ Frame.Sheds limit s frames rest := by
  have hone := readFrame_agrees limit h
  exact ⟨hone, readFrames_iff h⟩

/-- A lookup in two chunks with an interruption between them, then a response, which is no request, and the beginning
of a third frame. -/
theorem reads_as_cut_broken_chunks :
    let lookup : Octets := Packet.encode ⟨{ magic := 0x80, keyLength := 1, totalBody := 1 }, [107]⟩
    let response : Octets := Packet.encode ⟨{ magic := 0x81 }, []⟩
    let script : Inlet :=
      [.data (lookup.take 7), .fail ⟨.interrupted, ""⟩, .data (lookup.drop 7 ++ response), .data [128]]
    script.Presents (lookup ++ (response ++ [128])) ∧
      ReadsAsCut 10 (lookup ++ (response ++ [128])) (readFrame 10 script) ∧
      ∃ after, readFrames 10 2 script = (.ok [lookup, response], after) ∧ after.Presents [128] := by
  intro lookup response script
  have hscript : script.Presents (lookup ++ (response ++ [128])) := ⟨by decide, by decide⟩
  have hfirst : Frame.cut 10 (lookup ++ (response ++ [128])) =
      (.ok (some ⟨{ magic := 0x80, keyLength := 1, totalBody := 1 }, [107]⟩), response ++ [128]) :=
    Frame.cut_eq_packet_iff.mpr ⟨rfl, rfl, rfl, by decide⟩
  have hsecond : Frame.cut 10 (response ++ [128]) =
      (.error (.framing (.wrongMagic 0x81)), [128]) := rfl
  obtain ⟨hone, hall⟩ := reads_as_cut 10 hscript
  refine ⟨hscript, hone, (hall 2 [lookup, response] [128]).mpr ⟨rfl, ?_⟩⟩
  refine .cons (by rw [hfirst]) (by decide) ?_
  rw [hfirst]
  refine .cons (by rw [hsecond]) (by decide) ?_
  rw [hsecond]
  exact .nil [128]

end Inlet

end ShardedCache
