import ShardedCache.Proofs.Frame.Assembly
import ShardedCache.Proofs.Relay.Errands
import ShardedCache.Proofs.Stream.Cutting
import ShardedCache.Relay.Link

namespace ShardedCache

namespace WriteEvent

/-- How many octets a script makes room for before a write fails for good; after the script everything is accepted. -/
def room? : List WriteEvent → Option Nat
  | [] => none
  | .take n :: script => if n = 0 then some 0 else (room? script).map (n + ·)
  | .fail error :: script => if error.kind = .interrupted then room? script else some 0

theorem pushAll_of_room (stuck : IoError) (script : List WriteEvent) (bs : Octets) :
    (pushAll stuck script bs).1 = bs.take ((room? script).getD bs.length) ∧
      ((pushAll stuck script bs).2.1 = .ok () ↔ bs.length ≤ (room? script).getD bs.length) := by
  induction script, bs using pushAll.induct stuck with
  | case1 script => simp [pushAll]
  | case2 bs hne =>
    rw [pushAll]
    · simp [room?]
    · exact hne
  | case3 error script b bs hkind ih =>
    rw [pushAll, if_pos hkind, room?, if_pos hkind]
    exact ih
  | case4 error script b bs hkind =>
    rw [pushAll, if_neg hkind, room?, if_neg hkind]
    simp
  | case5 script b bs => simp [pushAll, room?]
  | case6 n script b bs hn accepted outcome rest hpush ih =>
    simp only [hpush] at ih
    obtain ⟨haccepted, houtcome⟩ := ih
    rw [pushAll, if_neg hn, hpush, room?, if_neg hn]
    dsimp only
    have hrest : ((b :: bs).drop n).length = (b :: bs).length - n := List.length_drop
    cases hroom : room? script with
    | none =>
      rw [hroom, Option.getD_none, List.take_length] at haccepted
      rw [hroom, Option.getD_none] at houtcome
      constructor
      · rw [haccepted, List.take_append_drop, Option.map_none, Option.getD_none, List.take_length]
      · simpa using houtcome
    | some k =>
      rw [hroom, Option.getD_some] at haccepted houtcome
      constructor
      · rw [haccepted, Option.map_some, Option.getD_some, List.take_add]
      · rw [houtcome, hrest, Option.map_some, Option.getD_some]
        omega

end WriteEvent

namespace Inlet

/-- A whole frame of allowed length, with so much of a body, opens these octets. -/
structure Opens (limit : Nat) (total : UInt32) (unread : Octets) : Prop where
  announced : Header.peekTotalBody? unread = some total
  allowed : total.toNat ≤ limit
  whole : Header.size + total.toNat ≤ unread.length

variable {limit : Nat} {inlet : Inlet} {frame : Octets}

theorem readFrame_eq_ok_iff : (readFrame limit inlet).1 = .ok frame ↔
    ∃ total, Opens limit total inlet.arriving ∧
      frame = inlet.arriving.take (Header.size + total.toNat) := by
  constructor
  · intro h
    obtain ⟨p, hp, hlimit, rfl, harriving⟩ := arriving_of_readFrame (Prod.ext h rfl)
    have hlen : p.encode.length = Header.size + p.header.totalBody.toNat := by
      rw [Packet.length_encode, Packet.encodedLength, hp]
    refine ⟨p.header.totalBody, ⟨?_, hlimit, ?_⟩, ?_⟩
    · rw [harriving, Packet.encode, List.append_assoc, Header.peekTotalBody?_encode_append]
    · rw [harriving, List.length_append, hlen]
      omega
    · rw [harriving, ← hlen, List.take_left]
  · rintro ⟨total, hopens, rfl⟩
    have hwhole := hopens.whole
    obtain ⟨header, tail, hsplit⟩ :=
      Header.exists_encode_append (Nat.le_of_add_right_le hopens.whole)
    have hannounced := hopens.announced
    rw [hsplit, Header.peekTotalBody?_encode_append] at hannounced
    obtain rfl := Option.some.inj hannounced
    rw [hsplit, List.length_append, Header.length_encode] at hwhole
    have hbody : header.totalBody.toNat ≤ tail.length := by omega
    obtain ⟨hcomplete, hframe⟩ := Packet.complete_of_announced header hbody
    have harriving := hsplit.trans hframe
    obtain ⟨rest, hread, -⟩ := readFrame_of_arriving hcomplete hopens.allowed harriving
    have hlen : (Packet.encode ⟨header, tail.take header.totalBody.toNat⟩).length =
        Header.size + header.totalBody.toNat := by
      rw [Packet.length_encode, Packet.encodedLength, ← hcomplete]
    rw [hread, harriving, ← hlen, List.take_left]

theorem Opens.front {total : UInt32} {unread : Octets} (h : Opens limit total unread) :
    Header.peekStatus? (unread.take (Header.size + total.toNat)) = Header.peekStatus? unread ∧
      ∀ b, (unread.take (Header.size + total.toNat)).headD b = unread.headD b := by
  obtain ⟨header, tail, rfl⟩ := Header.exists_encode_append (Nat.le_of_add_right_le h.whole)
  have htake : (header.encode ++ tail).take (Header.size + total.toNat) =
      header.encode ++ tail.take total.toNat := by
    rw [← Header.length_encode header, List.take_length_add_append]
  rw [htake]
  constructor
  · rw [Header.peekStatus?_encode_append, Header.peekStatus?_encode_append]
  · intro b
    rw [Header.headD_encode_append, Header.headD_encode_append]

end Inlet

namespace Link

def next (link : Link) : Exchange :=
  link.plan.head?.getD {}

def unread (link : Link) : Octets :=
  Inlet.arriving (link.inlet ++ link.next.reads)

/-- How many octets of a request get through in the next exchange. -/
def room (link : Link) (request : Octets) : Nat :=
  (WriteEvent.room? (link.writes ++ link.next.writes)).getD request.length

structure Takes (link : Link) (request : Octets) : Prop where
  written : request.length ≤ link.room request
  flushed : link.next.flushError = none

structure Brings (link : Link) (total : UInt32) : Prop extends
    Inlet.Opens Frame.defaultLimit total link.unread where
  response : link.unread.headD 0 = Header.responseMagic

variable {link : Link} {request frame : Octets}

theorem exchange_accepted (link : Link) (request : Octets) :
    (link.exchange request).1 = request.take (link.room request) := by
  rw [room, ← (WriteEvent.pushAll_of_room .shortWrite _ request).1]
  simp only [exchange, next]
  split
  · rfl
  · rfl
  · split
    · rfl
    · split <;> rfl

theorem exchange_same (link : Link) (request : Octets) :
    (link.exchange request).2.2.id = link.id ∧ (link.exchange request).2.2.peer = link.peer := by
  simp only [exchange]
  split
  · exact ⟨rfl, rfl⟩
  · exact ⟨rfl, rfl⟩
  · split
    · exact ⟨rfl, rfl⟩
    · split <;> exact ⟨rfl, rfl⟩

theorem exchange_of_takes (h : link.Takes request) :
    (link.exchange request).2.1 =
      match ((link.inlet ++ link.next.reads).readFrame Frame.defaultLimit).1 with
      | .error fault => .error fault
      | .ok frame =>
        if frame.headD 0 = Header.responseMagic then .ok frame
        else .error (.backend (.notAResponse (frame.headD 0))) := by
  have hroom := WriteEvent.pushAll_of_room .shortWrite (link.writes ++ link.next.writes) request
  have hwritten := hroom.2.mpr h.written
  have hflushed := h.flushed
  simp only [next] at hwritten hflushed ⊢
  rcases hread : (link.inlet ++ (link.plan.head?.getD {}).reads).readFrame Frame.defaultLimit with
    ⟨fault | frame, rest⟩
  · simp only [exchange, hwritten, hflushed, hread]
  · by_cases hmagic : frame.headD 0 = Header.responseMagic
    · simp only [exchange, hwritten, hflushed, hread, if_pos hmagic]
    · simp only [exchange, hwritten, hflushed, hread, if_neg hmagic]

theorem takes_of_exchange (h : (link.exchange request).2.1 = .ok frame) : link.Takes request := by
  have hroom := (WriteEvent.pushAll_of_room .shortWrite (link.writes ++ link.next.writes) request).2
  simp only [exchange] at h
  split at h
  · cases h
  · cases h
  · rename_i hwritten hflushed
    exact ⟨hroom.mp hwritten, hflushed⟩

/-- An exchange succeeds exactly if the request gets out and a response comes back. -/
theorem exchange_ok_iff (link : Link) (request frame : Octets) : (link.exchange request).2.1 = .ok frame ↔
    link.Takes request ∧
      ∃ total, link.Brings total ∧ frame = link.unread.take (Header.size + total.toNat) := by
  constructor
  · intro h
    have htakes := takes_of_exchange h
    refine ⟨htakes, ?_⟩
    rw [exchange_of_takes htakes] at h
    match hread : ((link.inlet ++ link.next.reads).readFrame Frame.defaultLimit).1 with
    | .error fault => simp [hread] at h
    | .ok read =>
      simp only [hread] at h
      split at h
      · rename_i hmagic
        cases h
        obtain ⟨total, hopens, hframe⟩ := Inlet.readFrame_eq_ok_iff.mp hread
        refine ⟨total, ⟨hopens, ?_⟩, hframe⟩
        rw [hframe, hopens.front.2] at hmagic
        exact hmagic
      · cases h
  · rintro ⟨htakes, total, hbrings, hframe⟩
    have hread := Inlet.readFrame_eq_ok_iff.mpr ⟨total, hbrings.toOpens, hframe⟩
    have hmagic : frame.headD 0 = Header.responseMagic := by
      rw [hframe]
      exact (hbrings.toOpens.front.2 0).trans hbrings.response
    rw [exchange_of_takes htakes, hread]
    simp only [if_pos hmagic]

end Link

/-- What becomes of a keyed request that goes out as `frame` on a link: the octets that were written, and what the
client is told. -/
structure Relay.Outcome (op : Opcode) (frame : Octets) (failure : Reply) (link : Link) (written : Octets)
    (reply : Reply) : Prop where
  front : written = frame.take (link.room frame)
  whole : link.Takes frame → written = frame
  /-- What is read as a frame has a first octet by which it is judged. -/
  judged : ∀ answer rest,
    (link.inlet ++ link.next.reads).readFrame Frame.defaultLimit = (.ok answer, rest) → answer ≠ []
  answered : ∀ total, link.Takes frame → link.Brings total →
    ¬ (op = .setQ ∧ Header.peekStatus? link.unread = some 0) →
      reply = .send (link.unread.take (Header.size + total.toNat))
  silenced : ∀ total, link.Takes frame → link.Brings total →
    op = .setQ → Header.peekStatus? link.unread = some 0 → reply = .silent
  failed : ¬ (link.Takes frame ∧ ∃ total, link.Brings total) → reply = failure

namespace Fleet

def planeWith (refusal : IoError) (usable : Fleet → Link → Bool) : Backplane Link Fleet :=
  { backplane refusal with usable := usable }

theorem sent_dial (refusal : IoError) (address : Address) (fleet : Fleet) :
    (dial refusal address fleet).2.sent = fleet.sent := by
  simp only [dial]
  split <;> rfl

theorem sent_borrow (refusal : IoError) (valid : Link → Bool) (address : Address)
    (pool : Pool Address Link) (fleet : Fleet) :
    (pool.borrow valid (dial refusal address) address fleet).2.sent = fleet.sent := by
  simp only [Pool.borrow]
  split
  · rfl
  · exact sent_dial refusal address fleet

end Fleet

namespace Relay

variable {op : Opcode} {request : Packet}

def told (op : Opcode) (request : Packet) : Except Fault Octets → Reply
  | .ok response => conclude op response
  | .error _ => .status request.header .internalError

theorem outcome_of_exchange (hop : (op.isLookup || op.isPut) = true) {link after : Link}
    {written : Octets} {answer : Except Fault Octets}
    (hexchange : link.exchange request.encode = (written, answer, after)) :
    Outcome op request.encode (.status request.header .internalError) link written
      (told op request answer) := by
  have hwritten : written = request.encode.take (link.room request.encode) := by
    rw [← Link.exchange_accepted, hexchange]
  have hok (response : Octets) : answer = .ok response ↔ link.Takes request.encode ∧
      ∃ total, link.Brings total ∧ response = link.unread.take (Header.size + total.toNat) := by
    have hiff := Link.exchange_ok_iff link request.encode response
    rwa [hexchange] at hiff
  have htold (total : UInt32) (htakes : link.Takes request.encode) (hbrings : link.Brings total) :
      told op request answer =
        if op = .setQ ∧ Header.peekStatus? link.unread = some 0 then .silent
        else .send (link.unread.take (Header.size + total.toNat)) := by
    rw [(hok _).mpr ⟨htakes, total, hbrings, rfl⟩, told, conclude_of_keyed hop,
      hbrings.toOpens.front.1]
  refine ⟨hwritten, ?_, ?_, ?_, ?_, ?_⟩
  · intro htakes
    rw [hwritten, List.take_of_length_le htakes.written]
  · intro response rest hread
    have hsize : 0 < Header.size := by decide
    exact List.ne_nil_of_length_pos (Nat.lt_of_lt_of_le hsize (Inlet.size_le_of_readFrame hread))
  · intro total htakes hbrings hloud
    rw [htold total htakes hbrings, if_neg hloud]
  · intro total htakes hbrings hquiet hstatus
    rw [htold total htakes hbrings, if_pos ⟨hquiet, hstatus⟩]
  · intro hnone
    match answer with
    | .error fault => rfl
    | .ok response =>
      obtain ⟨htakes, total, hbrings, -⟩ := (hok response).mp rfl
      exact absurd ⟨htakes, total, hbrings⟩ hnone

end Relay

namespace Fleet

def failureFor (request : Packet) : Reply :=
  .send (Header.encode
    { magic := 0x81, opcode := request.header.opcode, status := 0x0084, echo := request.header.echo })

/-- Forwarding a keyed request has three outcomes, whatever the state of the pool, the links that are of use and the
plans of the backends: the response as it came, silence about a quiet request that was stored, or a failure.  Only a
front of the client's own frame is ever written, and nothing without a connection. -/
theorem forwarding_outcomes (refusal : IoError) (usable : Fleet → Link → Bool)
    (owner : Octets → Address) (now : Nat) (pool : Pool Address Link) (fleet : Fleet) {limit : Nat}
    {frame rest key : Octets} {request : Packet} {op : Opcode}
    (hcut : Frame.cut limit (frame ++ rest) = (.ok (some request), rest))
    (hcommand : request.header.command? = some op) (hop : (op.isLookup || op.isPut) = true)
    (hkey : request.key? = some key) :
    let routed := Relay.route (planeWith refusal usable) owner now request pool fleet
    match (pool.borrow (usable fleet) (dial refusal (owner key)) (owner key) fleet).1.answer with
    | .error _ => routed.reply = failureFor request ∧ routed.world.sent = fleet.sent
    | .ok link => ∃ written, routed.world.sent = fleet.sent ++ [⟨link.id, link.peer, written⟩] ∧
        Relay.Outcome op frame (failureFor request) link written routed.reply := by
  obtain ⟨hsplit, -⟩ := Frame.cut_eq_packet_iff.mp hcut
  obtain rfl : frame = request.encode := List.append_cancel_right hsplit
  have herrand : Relay.errand request = .forward op key :=
    Relay.errand_eq_forward_iff.mpr ⟨hcommand, hop, hkey⟩
  have hfailure : failureFor request = .status request.header .internalError := rfl
  have hsent := sent_borrow refusal (usable fleet) (owner key) pool fleet
  simp only [Relay.route, herrand, hfailure]
  match hborrow : pool.borrow (usable fleet) (dial refusal (owner key)) (owner key) fleet with
  | (loan, borrowed) =>
    simp only [hborrow] at hsent
    match hanswer : loan.answer with
    | .error error =>
      rw [Relay.forward_of_refusal (planeWith refusal usable) op now hborrow hanswer]
      exact ⟨rfl, hsent⟩
    | .ok link =>
      obtain ⟨hid, hpeer⟩ := link.exchange_same request.encode
      match hexchange : link.exchange request.encode with
      | (written, answer, after) =>
        simp only [hexchange] at hid hpeer
        have houtcome := Relay.outcome_of_exchange hop hexchange
        have hconverse : (planeWith refusal usable).converse request.encode link borrowed =
            (answer, after,
              { borrowed with sent := fleet.sent ++ [⟨link.id, link.peer, written⟩] }) := by
          simp only [planeWith, backplane, hexchange, hid, hpeer, hsent]
        match answer with
        | .ok response =>
          rw [Relay.forward_of_frame (planeWith refusal usable) op now hborrow hanswer hconverse]
          exact ⟨written, rfl, houtcome⟩
        | .error fault =>
          rw [Relay.forward_of_fault (planeWith refusal usable) op now hborrow hanswer hconverse]
          exact ⟨written, rfl, houtcome⟩

/-- A lookup over an idle link that takes the request in two writes and sends more than the response to it. -/
theorem forwarding_outcomes_idle_link :
    let address : Address := ⟨.v4 127 0 0 1, 11211⟩
    let request : Packet := ⟨{ magic := 0x80, keyLength := 1, totalBody := 1 }, [107]⟩
    let response : Packet := ⟨{ magic := 0x81, totalBody := 1 }, [118]⟩
    let exchange : Exchange :=
      { writes := [.take 3, .fail ⟨.interrupted, ""⟩]
        reads := [.data (response.encode.take 7), .fail ⟨.interrupted, ""⟩,
          .data (response.encode.drop 7 ++ [1, 2])] }
    let link : Link := { id := 4, peer := address, plan := [exchange] }
    let pool : Pool Address Link := { lifetime := 60 }
    Frame.cut 10 (request.encode ++ [128]) = (.ok (some request), [128]) ∧
      request.header.command? = some .get ∧ request.key? = some [107] ∧
      ∃ written,
        (Relay.route (planeWith ⟨.connectionRefused, ""⟩ fun _ _ => true) (fun _ => address) 7 request
          (pool.push address ⟨link, 0⟩) { arrivals := [] }).world.sent = [⟨4, address, written⟩] ∧
        written = request.encode ∧
        (Relay.route (planeWith ⟨.connectionRefused, ""⟩ fun _ _ => true) (fun _ => address) 7 request
          (pool.push address ⟨link, 0⟩) { arrivals := [] }).reply = .send response.encode := by
  intro address request response exchange link pool
  have hcut : Frame.cut 10 (request.encode ++ [128]) = (.ok (some request), [128]) :=
    Frame.cut_eq_packet_iff.mpr ⟨rfl, rfl, rfl, by decide⟩
  have htakes : link.Takes request.encode := ⟨by decide, rfl⟩
  have hbrings : link.Brings 1 := ⟨⟨by decide, by decide, by decide⟩, by decide⟩
  have hborrow : ((pool.push address ⟨link, 0⟩).borrow (fun _ => true)
      (dial ⟨.connectionRefused, ""⟩ address) address { arrivals := [] }).1.answer = .ok link := rfl
  have hall := forwarding_outcomes ⟨.connectionRefused, ""⟩ (fun _ _ => true) (fun _ => address) 7
    (pool.push address ⟨link, 0⟩) { arrivals := [] } hcut rfl rfl rfl
  simp only [hborrow] at hall
  obtain ⟨written, hsent, houtcome⟩ := hall
  have hresponse : link.unread.take (Header.size + (1 : UInt32).toNat) = response.encode := by decide
  refine ⟨hcut, rfl, rfl, written, hsent, houtcome.whole htakes, ?_⟩
  rw [← hresponse]
  exact houtcome.answered 1 htakes hbrings (by decide)

end Fleet

end ShardedCache
