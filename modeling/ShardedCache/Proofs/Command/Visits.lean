import ShardedCache.Command.Client
import ShardedCache.Proofs.Octets.Text
import ShardedCache.Proofs.Relay.ReadBack
import ShardedCache.Proofs.Stream.RoundTrip
import ShardedCache.Settings

namespace ShardedCache

namespace History

def after (history : History) (store : Store) : Store :=
  history.foldl (fun store step => (Service.answer step.1 step.2 store).2) store

def Spares (history : History) (key : Octets) : Prop :=
  ∀ step ∈ history, ∀ d, step.1.stores? = some d → d.key ≠ key

end History

theorem History.find?_after {history : History} {store : Store} {key : Octets} (hspares : history.Spares key)
    (hlasting : ∀ entry, store.find? key = some entry → entry.deadline = none) :
    (history.after store).find? key = store.find? key := by
  induction history generalizing store with
  | nil => rfl
  | cons step history ih =>
    obtain ⟨hstep, hothers⟩ := List.forall_mem_cons.mp hspares
    have hsame := Service.find?_answer_of_spared hlasting hstep step.2
    calc (History.after (step :: history) store).find? key
        = (Service.answer step.1 step.2 store).2.find? key := by
          apply ih hothers
          rw [hsame]
          exact hlasting
      _ = store.find? key := hsame

namespace Command

/-- One run of the client against a server, on a connection of its own: how the client ends, and the store then. -/
def Request.visit (transit : Transit) (settings : Settings) (turn : Nat) (request : Request) (now : Nat)
    (store : Store) : Ending × Store :=
  let sink : Sink := { writes := transit.writes turn }
  let limit := settings.maxBodyLength.toNat
  let handler : Handler Store := fun packet store => Service.answer packet now store
  -- What the client sends does not depend on what it will read.
  let (asked, _) := request.ask sink []
  let opened := Session.start limit handler (transit.sinks turn) store
  let (progress, store) :=
    (Session.reads (transit.inbound turn asked)).foldl (Session.advance limit handler) opened
  let answered := progress.session.outbox.sink.sent.drop opened.1.session.outbox.sink.sent.length
  ((request.ask sink (transit.outbound turn answered)).2, store)

namespace Request

variable {request : Request} {packet response : Packet} {now : Nat} {store : Store}

theorem ask_of_open (hpacket : request.packet = .ok packet) {sink : Sink} (hsink : sink.Open) (inlet : Inlet) :
    request.ask sink inlet = (sink.sent ++ packet.encode, request.conclude inlet.readPacket.1) := by
  obtain ⟨after, hwrite, -, hsent, -⟩ := Sink.writePacket_of_open packet hsink
  simp only [ask, hpacket, hwrite, hsent]

theorem visit_of_answer (transit : Transit) (settings : Settings) (turn : Nat)
    (hpacket : request.packet = .ok packet) (hassembled : packet.Assembled settings.maxBodyLength.toNat)
    (hanswer : (Service.answer packet now store).1 = .ok (.packet response)) (hresponse : response.Sendable) :
    request.visit transit settings turn now store =
      (request.conclude (.ok response), (Service.answer packet now store).2) := by
  have hsink : ({ writes := transit.writes turn } : Sink).Open := ⟨transit.writes_flow turn, nofun⟩
  let limit := settings.maxBodyLength.toNat
  let handler : Handler Store := fun packet store => Service.answer packet now store
  obtain ⟨opened, hstart, hopened⟩ := Session.start_of_open limit handler store (transit.sinks_open turn)
  have harrive : Inlet.arriving (Session.reads (transit.inbound turn packet.encode)) = packet.encode := by
    rw [Session.arriving_reads, transit.arriving_inbound]
  have hflow := Session.reads_flow (transit.inbound_flows turn packet.encode)
  have hhandler : handler packet store = (.ok (.packet response), (Service.answer packet now store).2) :=
    Prod.ext hanswer rfl
  obtain ⟨sent, hfold, -, hsent⟩ :=
    Session.foldl_advance_one hassembled hflow harrive hopened hhandler rfl
  have hpresents : Inlet.Presents (transit.outbound turn response.encode) (response.encode ++ []) := by
    rw [List.append_nil]
    exact Inlet.presents_of_arriving (transit.outbound_flows turn _) (transit.arriving_outbound turn _)
  obtain ⟨_, hread, -⟩ := Inlet.readPacket_of_presents hresponse hpresents
  have hback : sent.sent.drop opened.sent.length = response.encode := by
    rw [hsent, List.drop_left]
    rfl
  simp only [visit, ask_of_open hpacket hsink, List.nil_append]
  rw [hstart, hfold]
  simp only [Progress.session]
  rw [hback, hread]

theorem octetsOf_eq_nil_iff {text : String} : octetsOf text = [] ↔ text = "" := by
  constructor
  · intro h
    have htext := Octets.lossyText_toUTF8 text
    rw [octetsOf] at h
    rw [← htext, h, Octets.lossyText, Octets.lossyChars, String.ofList_nil]
  · rintro rfl
    rw [octetsOf, Octets.toList_toUTF8, String.toList_empty, List.flatMap_nil]

theorem report_of_carries {asked : Packet} {status : Status} {flags : UInt32} {shown value : Octets}
    (h : Carries asked response status flags shown value) :
    report response =
      ["status: " ++ status.message, "flags:  " ++ toString flags.toNat] ++
        if value = [] then [] else ["value:  " ++ Octets.lossyText value] := by
  have hfour : response.header.extrasLength = 4 := by
    rw [← UInt8.toNat_inj, ← Octets.length_of_slice? h.extras, Octets.length_bigEndian]
    rfl
  have hflags : Octets.toNat (Octets.bigEndian 4 flags.toNat) = flags.toNat :=
    Octets.toNat_bigEndian_of_lt flags.toNat_lt
  simp only [report, h.status, Status.ofCode?_code, h.extras, hfour, if_true, hflags, h.value,
    List.cons_append, List.nil_append]

theorem report_responseTo (asked : Header) : report { header := asked.responseTo } = ["status: no error"] :=
  rfl

variable (transit : Transit) (turn : Nat) {key value : String} {flags : UInt32}

theorem visit_set (flags : UInt32) (hkey : (octetsOf key).length ≤ 65535)
    (hbody : 8 + (octetsOf key).length + (octetsOf value).length ≤ Frame.defaultLimit) (now : Nat) (store : Store) :
    ∃ after, visit transit {} turn (.set key value flags 0) now store =
        ({ exitCode := 0, output := lines ["status: no error"] }, after) ∧
      after.find? (octetsOf key) =
        some { blob := Item.pack { value := octetsOf value, flags := flags }, deadline := none } := by
  have hdefault : Frame.defaultLimit = 16777216 := rfl
  have hword : 8 + (octetsOf key).length + (octetsOf value).length ≤ 4294967295 := by omega
  obtain ⟨put, hbuilt⟩ := Packet.exists_setRequest (octetsOf key) (octetsOf value) .set flags 0 1 hkey hword
  obtain ⟨hcommand, hdeposit, hlength, hassembled⟩ := Packet.setRequest_spec hbuilt
  obtain ⟨hanswer, hentry⟩ := Service.answer_set hcommand hdeposit rfl now store
  have hsendable : Packet.Sendable { header := put.header.responseTo } := ⟨rfl, Nat.zero_le _⟩
  have hpacket : (Request.set key value flags 0).packet = .ok put := hbuilt
  have hlimit : put.body.length ≤ Frame.defaultLimit := hlength.symm ▸ hbody
  refine ⟨_, ?_, hentry⟩
  rw [visit_of_answer transit {} turn hpacket (hassembled _ hlimit) hanswer hsendable, conclude,
    report_responseTo]

theorem visit_get_of_answer {status : Status} {value : Octets} (hkey : (octetsOf key).length ≤ 65535)
    (hvalue : 4 + value.length ≤ Frame.defaultLimit) (hstatus : status ≠ .invalidArguments) {now : Nat}
    (hanswer : ∀ get : Packet, get.header.command? = some .get → get.key? = some (octetsOf key) →
      (Service.answer get now store).1 =
        .ok (.packet (Service.lookupResponse get.header status flags (Service.shown .get (octetsOf key)) value))) :
    (visit transit {} turn (.get key) now store).1 =
      { exitCode := 0
        output := lines (["status: " ++ status.message, "flags:  " ++ toString flags.toNat] ++
          if value = [] then [] else ["value:  " ++ Octets.lossyText value]) } := by
  have hdefault : Frame.defaultLimit = 16777216 := rfl
  have hshown : Service.shown .get (octetsOf key) = [] := rfl
  obtain ⟨get, hbuilt⟩ := Packet.exists_getRequest .get 1 hkey
  obtain ⟨hcommand, hkey', hassembled⟩ := Packet.getRequest_spec hbuilt
  have hpacket : (Request.get key).packet = .ok get := hbuilt
  have hlimit : (octetsOf key).length ≤ Frame.defaultLimit := by omega
  have hresponse := hanswer get hcommand hkey'
  rw [hshown] at hresponse
  have hnone : ([] : Octets).length < 65536 := by decide
  have hword : 4 + ([] : Octets).length + value.length < 4294967296 := by
    rw [List.length_nil]
    omega
  have hcomplete : (Service.lookupResponse get.header status flags [] value).Complete :=
    Service.complete_lookupResponse hnone hword
  have hcarries : Carries get (Service.lookupResponse get.header status flags [] value) status
      flags [] value := Service.lookupResponse_carries hnone hword hstatus
  have hsendable : (Service.lookupResponse get.header status flags [] value).Sendable := by
    refine ⟨hcomplete, ?_⟩
    rw [hcomplete, Service.length_lookupResponse, List.length_nil, Nat.add_zero]
    exact hvalue
  rw [visit_of_answer transit {} turn hpacket (hassembled _ hlimit) hresponse hsendable, conclude,
    report_of_carries hcarries]

theorem visit_get (hkey : (octetsOf key).length ≤ 65535)
    (hvalue : 4 + (octetsOf value).length ≤ Frame.defaultLimit) (now : Nat) {store : Store}
    (hentry : store.find? (octetsOf key) =
      some { blob := Item.pack { value := octetsOf value, flags := flags }, deadline := none }) :
    (visit transit {} turn (.get key) now store).1 =
      { exitCode := 0
        output := lines (["status: no error", "flags:  " ++ toString flags.toNat] ++
          if value = "" then [] else ["value:  " ++ value]) } := by
  have hvisit := visit_get_of_answer transit turn hkey hvalue (by decide : Status.noError ≠ .invalidArguments)
    fun get hcommand hasked => Service.answer_lookup hcommand rfl hasked hentry now
  have hshown : Octets.lossyText (octetsOf value) = value := Octets.lossyText_toUTF8 value
  simp only [octetsOf_eq_nil_iff, hshown] at hvisit
  exact hvisit

theorem visit_get_missing (hkey : (octetsOf key).length ≤ 65535) (now : Nat) {store : Store}
    (hnone : store.find? (octetsOf key) = none) :
    (visit transit {} turn (.get key) now store).1 =
      { exitCode := 0, output := lines ["status: key not found", "flags:  0"] } := by
  have hmiss : (store.get (octetsOf key) now).1 = none := by
    rw [Store.fst_get, hnone, Option.bind_none]
  have hanswer : ∀ get : Packet, get.header.command? = some .get → get.key? = some (octetsOf key) →
      (Service.answer get now store).1 = .ok (.packet
        (Service.lookupResponse get.header .keyNotFound 0 (Service.shown .get (octetsOf key)) [])) := by
    intro get hcommand hasked
    have hloud : ¬ Opcode.get.isQuiet = true := by decide
    rw [Service.answer_of_lookup hcommand rfl, Service.lookup_of_some hasked, hmiss, if_neg hloud]
  have hempty : 4 + ([] : Octets).length ≤ Frame.defaultLimit := by decide
  have hvisit := visit_get_of_answer transit turn hkey hempty (by decide) hanswer
  rw [if_pos rfl, List.append_nil] at hvisit
  exact hvisit

theorem ask_cases (request : Request) (sink : Sink) (inlet : Inlet) :
    (∃ fault, (request.ask sink inlet).2 = failed fault) ∨
      (request.ask sink inlet).2 = request.conclude inlet.readPacket.1 := by
  match hpacket : request.packet with
  | .error fault => exact .inl ⟨fault, by simp only [ask, hpacket]⟩
  | .ok packet =>
    match hwrite : sink.writePacket packet with
    | (.error fault, after) => exact .inl ⟨fault, by simp only [ask, hpacket, hwrite]⟩
    | (.ok (), after) => exact .inr (by simp only [ask, hpacket, hwrite])

theorem conclude_error (request : Request) (fault : Fault) :
    request.conclude (.error fault) = failed fault ∨
      request = .noop ∧ request.conclude (.error fault) =
        { exitCode := 0, output := lines ["no response (" ++ fault.message ++ ")"] } := by
  cases request with
  | get key => exact .inl (by rw [conclude]; exact nofun)
  | set key value flags expiry => exact .inl (by rw [conclude]; exact nofun)
  | noop => exact .inr ⟨rfl, by rw [conclude]⟩

/-- How a client ends that met anything at all: it failed, it was told to do nothing and goes without a response, or
it read one whole packet off the front of what arrived and reports it. -/
theorem ask_ends (request : Request) (sink : Sink) (inlet : Inlet) :
    (∃ fault, (request.ask sink inlet).2 = failed fault) ∨
      (∃ fault : Fault, request = .noop ∧ (request.ask sink inlet).2 =
        { exitCode := 0, output := lines ["no response (" ++ fault.message ++ ")"] }) ∨
      ∃ response : Packet, response.Sendable ∧ response.encode <+: inlet.arriving ∧
        (request.ask sink inlet).2 = { exitCode := 0, output := lines (report response) } := by
  rcases ask_cases request sink inlet with hfailed | hends
  · exact .inl hfailed
  rw [hends]
  match hread : inlet.readPacket with
  | (.error fault, rest) =>
    rcases conclude_error request fault with hfailed | ⟨hnoop, hnone⟩
    · exact .inl ⟨fault, hfailed⟩
    · exact .inr (.inl ⟨fault, hnoop, hnone⟩)
  | (.ok response, rest) =>
    obtain ⟨hsendable, hfront⟩ := Inlet.front_of_readPacket hread
    exact .inr (.inr ⟨response, hsendable, hfront, by rw [conclude]⟩)

/-- What a report reads of a response is within it, and the four octets that it reads as flags are there. -/
structure Inside (response : Packet) : Prop where
  extras : ∀ extras, response.extras? = some extras → extras <+: response.body
  flags : ∀ extras, response.extras? = some extras → response.header.extrasLength = 4 →
    ∃ a b c d, extras = [a, b, c, d]
  value : ∀ value, response.value? = some value → value <:+ response.body

theorem inside (response : Packet) : Inside response := by
  refine ⟨?_, ?_, ?_⟩
  · intro extras h
    obtain ⟨-, rfl⟩ := Octets.slice?_eq_some_iff.mp h
    exact List.take_prefix ..
  · intro extras h hfour
    have hlength : extras.length = 4 := by
      rw [Octets.length_of_slice? h, hfour]
      rfl
    match extras, hlength with
    | [a, b, c, d], _ => exact ⟨a, b, c, d, rfl⟩
  · intro value h
    rw [Packet.value?, Option.ite_none_right_eq_some, Option.some.injEq] at h
    obtain ⟨-, rfl⟩ := h
    exact List.drop_suffix ..

/-- The client prints what it has stored, whatever the server holds, as long as nobody stores something else under
the key; of a key under which nothing was ever stored it prints that.

* The server is one with default settings.  It is visited on a connection of its own each time, on which nothing fails,
  but octets are taken and brought in any pieces.
* Whatever request the client makes and whatever it meets, a failing connection and any octets at all included, it
  fails, goes without a response that it need not get, or reports one whole packet that arrived, in which is all that
  the report reads. -/
theorem visits_read_back (transit : Transit) {key value : String} (flags : UInt32)
    (hkey : (octetsOf key).length ≤ 65535)
    (hbody : 8 + (octetsOf key).length + (octetsOf value).length ≤ 16777216) (now later : Nat) :
    (∀ store between, History.Spares between (octetsOf key) →
      let stored := visit transit {} 0 (.set key value flags 0) now store
      stored.1 = { exitCode := 0, output := lines ["status: no error"] } ∧
        (visit transit {} 1 (.get key) later (between.after stored.2)).1 =
          { exitCode := 0
            output := lines (["status: no error", "flags:  " ++ toString flags.toNat] ++
              if value = "" then [] else ["value:  " ++ value]) }) ∧
    (∀ before : History, before.Spares (octetsOf key) →
      (visit transit {} 0 (.get key) now before.store).1 =
        { exitCode := 0, output := lines ["status: key not found", "flags:  0"] }) ∧
    ∀ (request : Request) (sink : Sink) (inlet : Inlet),
      (∃ fault, (request.ask sink inlet).2 = failed fault) ∨
      (∃ fault : Fault, request = .noop ∧ (request.ask sink inlet).2 =
        { exitCode := 0, output := lines ["no response (" ++ fault.message ++ ")"] }) ∨
      ∃ response : Packet, response.Sendable ∧ response.encode <+: inlet.arriving ∧ Inside response ∧
        (request.ask sink inlet).2 = { exitCode := 0, output := lines (report response) } := by
  have hdefault : Frame.defaultLimit = 16777216 := rfl
  refine ⟨?_, ?_, ?_⟩
  · intro store between hspares
    obtain ⟨after, hvisit, hentry⟩ := visit_set transit 0 flags hkey (hdefault ▸ hbody) now store
    have hlasting := Service.lasting_of_find? hentry
    have hkept := (History.find?_after hspares hlasting).trans hentry
    have hvalue : 4 + (octetsOf value).length ≤ Frame.defaultLimit := by omega
    rw [hvisit]
    exact ⟨rfl, visit_get transit 1 hkey hvalue later hkept⟩
  · intro before hspares
    have hnone : before.store.find? (octetsOf key) = none := by
      apply History.find?_after hspares
      intro entry h
      cases h
    exact visit_get_missing transit 0 hkey now hnone
  · intro request sink inlet
    rcases ask_ends request sink inlet with hfailed | hsilent | ⟨response, hsendable, hfront, hends⟩
    · exact .inl hfailed
    · exact .inr (.inl hsilent)
    · exact .inr (.inr ⟨response, hsendable, hfront, inside response, hends⟩)

/-- A value of one character in two octets, after something was stored under another key and looked up. -/
theorem visits_read_back_two_keys :
    let other : Packet :=
      ⟨{ magic := 0x80, opcode := 0x01, keyLength := 1, extrasLength := 8, totalBody := 10 },
        [0, 0, 0, 7, 0, 0, 0, 0, 108, 118]⟩
    let miss : Packet := ⟨{ magic := 0x80, opcode := 0x09, keyLength := 1, totalBody := 1 }, [107]⟩
    let stored := visit .direct {} 0 (.set "k" "\u00e4" 7 0) 5 {}
    stored.1 = { exitCode := 0, output := lines ["status: no error"] } ∧
      (visit .direct {} 1 (.get "k") 9 (History.after [(other, 6), (miss, 8)] stored.2)).1 =
        { exitCode := 0, output := lines ["status: no error", "flags:  7", "value:  \u00e4"] } ∧
      (visit .direct {} 0 (.get "k") 5 (History.store [(miss, 1), (other, 2)])).1 =
        { exitCode := 0, output := lines ["status: key not found", "flags:  0"] } := by
  intro other miss stored
  have hkey : octetsOf "k" = [107] := by
    rw [octetsOf, Octets.toList_toUTF8]
    decide
  have hvalue : octetsOf "\u00e4" = [0xc3, 0xa4] := by
    rw [octetsOf, Octets.toList_toUTF8]
    decide
  have hother : ∀ d, other.stores? = some d → d.key ≠ octetsOf "k" := by
    rintro _ ⟨⟩
    rw [hkey]
    decide
  have hmiss : ∀ d, miss.stores? = some d → d.key ≠ octetsOf "k" := nofun
  have hbetween : History.Spares [(other, 6), (miss, 8)] (octetsOf "k") :=
    List.forall_mem_cons.mpr ⟨hother, List.forall_mem_singleton.mpr hmiss⟩
  have hbefore : History.Spares [(miss, 1), (other, 2)] (octetsOf "k") :=
    List.forall_mem_cons.mpr ⟨hmiss, List.forall_mem_singleton.mpr hother⟩
  have hshort : (octetsOf "k").length ≤ 65535 := by
    rw [hkey]
    decide
  have hbody : 8 + (octetsOf "k").length + (octetsOf "\u00e4").length ≤ 16777216 := by
    rw [hkey, hvalue]
    decide
  obtain ⟨hstored, hmissing, -⟩ := visits_read_back .direct 7 hshort hbody 5 9
  obtain ⟨hset, hget⟩ := hstored {} _ hbetween
  exact ⟨hset, hget, hmissing _ hbefore⟩

end Request

end Command

end ShardedCache
