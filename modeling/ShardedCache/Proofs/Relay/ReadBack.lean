import ShardedCache.Proofs.Packet.Building
import ShardedCache.Proofs.Relay.Cluster

namespace ShardedCache

namespace Service

variable {request : Packet} {op : Opcode} {store : Store} {key : Octets} {item : Item} {d : Deposit}

theorem find?_answer_of_spared
    (hlasting : ∀ entry, store.find? key = some entry → entry.deadline = none)
    (hother : ∀ d, request.stores? = some d → d.key ≠ key) (now : Nat) :
    (answer request now store).2.find? key = store.find? key := by
  rcases snd_answer_cases request now store with
    ⟨-, hafter⟩ | ⟨own, -, -, hafter⟩ | ⟨d, hstores, hafter⟩
  · rw [hafter]
  · have hstays : ¬ (key = own ∧ (store.find? own).any (·.isExpired now) = true) := by
      rintro ⟨rfl, hexpired⟩
      cases hentry : store.find? key with
      | none =>
        rw [hentry] at hexpired
        cases hexpired
      | some entry =>
        rw [hentry, Option.any_some, Entry.isExpired, hlasting entry hentry] at hexpired
        cases hexpired
    rw [hafter, Store.find?_get, if_neg hstays]
  · have hne : ¬ key = d.key := fun heq => hother d hstores heq.symm
    rw [hafter, Store.find?_set, if_neg hne]

theorem lasting_of_find? {blob : Octets} (hentry : store.find? key = some { blob := blob, deadline := none }) :
    ∀ entry, store.find? key = some entry → entry.deadline = none := by
  intro entry h
  obtain rfl := Option.some.inj (hentry.symm.trans h)
  rfl

theorem answer_keeps {blob : Octets}
    (hentry : store.find? key = some { blob := blob, deadline := none })
    (hother : ∀ d, request.stores? = some d → d.key ≠ key) (now : Nat) :
    (answer request now store).2.find? key = some { blob := blob, deadline := none } :=
  (find?_answer_of_spared (lasting_of_find? hentry) hother now).trans hentry

theorem answer_set (hcommand : request.header.command? = some .set)
    (hdeposit : request.deposit? = some d) (hstays : d.expiry = 0) (now : Nat) (store : Store) :
    (answer request now store).1 = .ok (.packet { header := request.header.responseTo }) ∧
      (answer request now store).2.find? d.key =
        some { blob := d.item.pack, deadline := none } := by
  have hloud : ¬ Opcode.set = .setQ := by decide
  rw [answer_of_put hcommand rfl, put_eq, hdeposit]
  refine ⟨by rw [if_neg hloud], ?_⟩
  simp only [Store.find?_set, if_true, Store.deadlineOf, hstays]

theorem answer_lookup (hcommand : request.header.command? = some op) (hop : op.isLookup = true)
    (hkey : request.key? = some key)
    (hentry : store.find? key = some { blob := item.pack, deadline := none }) (now : Nat) :
    (answer request now store).1 =
      .ok (.packet (lookupResponse request.header .noError item.flags (shown op key) item.value)) := by
  have hlive : Entry.isExpired { blob := item.pack, deadline := none } now = false := rfl
  have hget : (store.get key now).1 = some item.pack := by
    rw [Store.fst_get, hentry, Option.bind_some, hlive]
    rfl
  rw [answer_of_lookup hcommand hop, lookup_of_some hkey, hget]
  simp only [Item.unpack_pack]
  rfl

end Service

namespace Cluster

/-- What the response to a lookup has for a body: four octets of flags, the key if it is given back, and the value. -/
def answerLength (op : Opcode) (key : Octets) (item : Item) : Nat :=
  4 + (Service.shown op key).length + item.value.length

structure ReadsBack (request : Packet) (op : Opcode) (key : Octets) (item : Item) (reply : Reply) :
    Prop where
  found : answerLength op key item ≤ Frame.defaultLimit →
    ∃ response : Packet, reply = .send response.encode ∧
      Carries request response .noError item.flags (Service.shown op key) item.value
  lost : Frame.defaultLimit < answerLength op key item →
    reply = .status request.header .internalError

/-- Nothing is stored under the key in the event. -/
def Event.Spares (key : Octets) (event : Event) : Prop :=
  ∀ request, event.request? = some request → ∀ d, request.stores? = some d → d.key ≠ key

def Keeps (setup : Setup) (cluster : Cluster) (key : Octets) (item : Item) : Prop :=
  (cluster.world.stores (setup.owner key)).find? key =
    some { blob := item.pack, deadline := none }

variable {setup : Setup} {cluster : Cluster} {key : Octets} {item : Item}

theorem keeps_step (h : cluster.Sound) (hkeeps : Keeps setup cluster key item) {event : Event}
    (hassembled : event.Assembled setup.limit) (hspares : event.Spares key) :
    Keeps setup (step setup cluster event) key item := by
  obtain ⟨-, hstores⟩ := step_cases h hassembled
  rcases hstores (setup.owner key) with hsame | ⟨request, now, hrequest, hanswered⟩
  · rw [Keeps, hsame]
    exact hkeeps
  · rw [Keeps, hanswered]
    exact Service.answer_keeps hkeeps (hspares request hrequest) now

theorem keeps_run (h : cluster.Sound) (hkeeps : Keeps setup cluster key item) {events : List Event}
    (hassembled : ∀ event ∈ events, event.Assembled setup.limit)
    (hspares : ∀ event ∈ events, event.Spares key) :
    Keeps setup (run setup events cluster) key item := by
  have hstep (cluster : Cluster) (event : Event) (hnow : cluster.Sound ∧ Keeps setup cluster key item)
      (hevent : event.Assembled setup.limit ∧ event.Spares key) :
      (step setup cluster event).Sound ∧ Keeps setup (step setup cluster event) key item :=
    ⟨sound_step hnow.1 hevent.1, keeps_step hnow.1 hnow.2 hevent.1 hevent.2⟩
  have hboth := run_keeps (fun cluster => cluster.Sound ∧ Keeps setup cluster key item) hstep
    ⟨h, hkeeps⟩ fun event hevent => ⟨hassembled event hevent, hspares event hevent⟩
  exact hboth.2

/-- Storing over a relay: the client is told of success, and the item lies at the owner of its key. -/
theorem route_set (h : cluster.Sound) {put : Packet} {d : Deposit} (hput : put.Assembled setup.limit)
    (hcommand : put.header.command? = some .set) (hdeposit : put.deposit? = some d)
    (hstays : d.expiry = 0) (now : Nat) :
    (cluster.route setup now put).1 = .packet { header := put.header.responseTo } ∧
      (cluster.route setup now put).2.Sound ∧
      Keeps setup (cluster.route setup now put).2 d.key d.item := by
  have herrand : Relay.errand put = .forward .set d.key :=
    Relay.errand_eq_forward_iff.mpr ⟨hcommand, rfl, Packet.key?_of_deposit? hdeposit⟩
  obtain ⟨hreply, hstores, -⟩ := route_of_forward h hput herrand now
  obtain ⟨hanswer, hentry⟩ := Service.answer_set hcommand hdeposit hstays now
    (cluster.world.stores (setup.owner d.key))
  refine ⟨?_, ?_, ?_⟩
  · have hshort : (Packet.encode { header := put.header.responseTo }).length ≤
        Header.size + Frame.defaultLimit := by
      rw [Packet.length_encode, Packet.encodedLength]
      exact Nat.add_le_add_left (Nat.zero_le Frame.defaultLimit) Header.size
    rw [hreply, hanswer, Reply.packet, Relay.through_send, if_pos hshort]
  · have hevent : Event.Assembled setup.limit (.relayed now put) := by
      rintro request ⟨⟩
      exact hput
    exact sound_step h hevent
  · rw [Keeps, hstores]
    simp only [Backends.put, if_true]
    exact hentry

theorem route_lookup (h : cluster.Sound) {get : Packet} {op : Opcode}
    (hget : get.Assembled setup.limit) (hcommand : get.header.command? = some op)
    (hop : op.isLookup = true) (hkey : get.key? = some key)
    (hkeeps : Keeps setup cluster key item) (hlength : 8 + key.length + item.value.length ≤ 4294967295)
    (now : Nat) : ReadsBack get op key item (cluster.route setup now get).1 := by
  have herrand : Relay.errand get = .forward op key :=
    Relay.errand_eq_forward_iff.mpr ⟨hcommand, by rw [hop, Bool.true_or], hkey⟩
  obtain ⟨hreply, -, -⟩ := route_of_forward h hget herrand now
  have hanswer := Service.answer_lookup hcommand hop hkey hkeeps now
  have hsize : (Packet.encode (Service.lookupResponse get.header .noError item.flags
      (Service.shown op key) item.value)).length = Header.size + answerLength op key item := by
    rw [Packet.length_encode, Packet.encodedLength, Service.length_lookupResponse, answerLength]
  rw [hreply, hanswer, Reply.packet, Relay.through_send, hsize]
  constructor
  · intro hfits
    refine ⟨_, if_pos (Nat.add_le_add_left hfits Header.size), ?_⟩
    have hshort : key.length < 65536 := Packet.length_key?_lt hkey
    have hshown := Service.length_shown_le op key
    exact Service.lookupResponse_carries (by omega) (by omega) (by decide)
  · intro hlong
    exact if_neg fun hfits => Nat.not_lt.mpr (Nat.le_of_add_le_add_left hfits) hlong

/-- Whatever a relay and its servers were asked before, what one of its clients then stores for good is stored, and is
read back over the relay after any other requests that store nothing under the same key, if the response is no longer
than a relay reads.  That is so wherever requests are no longer either; a longer one is told as a failure. -/
theorem stored_reads_back (setup : Setup) (lifetime : Nat) {before between : List Event}
    {put get : Packet} {d : Deposit} {op : Opcode}
    (hbefore : ∀ event ∈ before, event.Assembled setup.limit)
    (hput : put.Assembled setup.limit) (hset : put.header.command? = some .set)
    (hdeposit : put.deposit? = some d) (hstays : d.expiry = 0)
    (hbetween : ∀ event ∈ between, event.Assembled setup.limit ∧ event.Spares d.key)
    (hget : get.Assembled setup.limit) (hcommand : get.header.command? = some op)
    (hop : op.isLookup = true) (hkey : get.key? = some d.key) (now later : Nat) :
    let stored := ((new lifetime).run setup before).route setup now put
    let read := (stored.2.run setup between).route setup later get
    (∃ response : Packet, stored.1 = .send response.encode ∧ Responds put response ∧
        response.header.status = Status.noError.code) ∧
      ReadsBack get op d.key d.item read.1 ∧
      (setup.limit ≤ Frame.defaultLimit → answerLength op d.key d.item ≤ Frame.defaultLimit) := by
  have hsound := sound_run (sound_new lifetime) hbefore
  obtain ⟨hreply, hafter, hkept⟩ := route_set hsound hput hset hdeposit hstays now
  have hassembled : ∀ event ∈ between, event.Assembled setup.limit :=
    fun event hevent => (hbetween event hevent).1
  have hspares : ∀ event ∈ between, event.Spares d.key :=
    fun event hevent => (hbetween event hevent).2
  have hlength := Packet.length_of_deposit? hdeposit
  have hbody : put.body.length ≤ setup.limit := by
    rw [← hput.total]
    exact hput.le_limit
  have hword : put.body.length < 4294967296 := by
    rw [← hput.total]
    exact put.header.totalBody.toNat_lt
  have hresponds : Responds put { header := put.header.responseTo } :=
    Service.statusFor_responds put .noError (by decide)
  refine ⟨⟨_, hreply, hresponds, rfl⟩, ?_, ?_⟩
  · apply route_lookup (sound_run hafter hassembled) hget hcommand hop hkey
      (keeps_run hafter hkept hassembled hspares)
    omega
  · intro hlimit
    have hshown := Service.length_shown_le op d.key
    calc answerLength op d.key d.item
        ≤ 8 + d.key.length + d.item.value.length := by
          rw [answerLength]
          omega
      _ ≤ Frame.defaultLimit := Nat.le_trans hlength (Nat.le_trans hbody hlimit)

def Setup.single (limit : Nat) : Setup where
  owner _ := ⟨.v4 127 0 0 1, 11211⟩
  transit := .direct
  limit := limit
  expiry := ⟨.wouldBlock, "timed out"⟩
  usable := Backends.usable
  spoil := Line.spoil
  spoiled _ _ := rfl

/-- A value that is looked up with its key, after a quiet lookup of another key and a sweep. -/
theorem stored_reads_back_after_sweep :
    let setup := Setup.single 100
    let put : Packet :=
      ⟨{ magic := 0x80, opcode := 0x01, keyLength := 1, extrasLength := 8, totalBody := 10 },
        [0, 0, 0, 7, 0, 0, 0, 0, 107, 118]⟩
    let miss : Packet := ⟨{ magic := 0x80, opcode := 0x09, keyLength := 1, totalBody := 1 }, [108]⟩
    let get : Packet := ⟨{ magic := 0x80, opcode := 0x0c, keyLength := 1, totalBody := 1 }, [107]⟩
    let stored := ((new 60).run setup [.relayed 3 miss]).route setup 5 put
    let read := (stored.2.run setup [.sweep 6, .direct (setup.owner [107]) 7 miss]).route setup 8 get
    (∃ response : Packet, stored.1 = .send response.encode ∧ response.header.status = 0) ∧
      ∃ response : Packet, read.1 = .send response.encode ∧
        Carries get response .noError 7 [107] [118] := by
  intro setup put miss get stored read
  have hmiss : miss.Assembled 100 := ⟨rfl, rfl, by decide⟩
  have hbefore : ∀ event ∈ [Event.relayed 3 miss], event.Assembled setup.limit := by
    intro event hevent
    obtain rfl := List.mem_singleton.mp hevent
    rintro request ⟨⟩
    exact hmiss
  have hbetween : ∀ event ∈ [Event.sweep 6, .direct (setup.owner [107]) 7 miss],
      event.Assembled setup.limit ∧ event.Spares [107] := by
    intro event hevent
    simp only [List.mem_cons, List.not_mem_nil, or_false] at hevent
    rcases hevent with rfl | rfl
    · exact ⟨nofun, nofun⟩
    · refine ⟨?_, ?_⟩
      · rintro request ⟨⟩
        exact hmiss
      · rintro request ⟨⟩ d hstores
        cases hstores
  have hput : put.Assembled setup.limit := ⟨rfl, rfl, by decide⟩
  have hget : get.Assembled setup.limit := ⟨rfl, rfl, by decide⟩
  have hdeposit : put.deposit? = some ⟨[107], ⟨[118], 7⟩, 0⟩ := by decide
  have hcommand : get.header.command? = some .getK := rfl
  obtain ⟨⟨response, hreply, -, hstatus⟩, hread, hfits⟩ :=
    stored_reads_back setup 60 hbefore hput rfl hdeposit rfl hbetween hget hcommand rfl rfl 5 8
  exact ⟨⟨response, hreply, hstatus⟩, hread.found (hfits (by decide))⟩

/-- A value that fits a request but not what a relay reads: it is stored, and its lookup is told as a failure. -/
theorem long_value_not_read_back :
    let setup := Setup.single 16777222
    let get : Packet := ⟨{ magic := 0x80, keyLength := 1, totalBody := 1 }, [107]⟩
    ∃ put : Packet,
      Packet.setRequest .set [107] (List.replicate 16777213 0) 0 0 1 = .ok put ∧
        put.body.length = 16777222 ∧ put.Assembled setup.limit ∧ get.Assembled setup.limit ∧
        ((new 60).route setup 0 put).1 = .packet { header := put.header.responseTo } ∧
        (((new 60).route setup 0 put).2.route setup 0 get).1 = .status get.header .internalError ∧
        ¬ ∃ response : Packet,
          (((new 60).route setup 0 put).2.route setup 0 get).1 = .send response.encode ∧
            response.header.status = Status.noError.code := by
  intro setup get
  have hvalue : (List.replicate 16777213 (0 : UInt8)).length = 16777213 := List.length_replicate
  -- Nothing is computed with the value but its length.
  generalize List.replicate 16777213 (0 : UInt8) = value at hvalue ⊢
  have hkey : ([107] : Octets).length = 1 := rfl
  have hdefault : Frame.defaultLimit = 16777216 := rfl
  obtain ⟨put, hbuilt⟩ := Packet.exists_setRequest [107] value .set 0 0 1 (by omega) (by omega)
  obtain ⟨hset, hdeposit, hbody, hassembled⟩ := Packet.setRequest_spec hbuilt
  have hlength : put.body.length = 16777222 := by omega
  have hput : put.Assembled setup.limit := hassembled 16777222 (Nat.le_of_eq hlength)
  have hget : get.Assembled setup.limit := ⟨rfl, rfl, by decide⟩
  obtain ⟨hstored, hsound, hkept⟩ := route_set (sound_new 60) hput hset hdeposit rfl 0
  have hitem : (⟨value, 0⟩ : Item).value.length = 16777213 := hvalue
  have hword : 8 + ([107] : Octets).length + (⟨value, 0⟩ : Item).value.length ≤ 4294967295 := by
    rw [hkey, hitem]
    omega
  have hcommand : get.header.command? = some .get := rfl
  have hread := route_lookup hsound hget hcommand rfl rfl hkept hword 0
  have hlong : Frame.defaultLimit < answerLength .get [107] ⟨value, 0⟩ := by
    have hshown : (Service.shown .get [107]).length = 0 := rfl
    rw [answerLength, hshown, hitem]
    omega
  have hlost := hread.lost hlong
  refine ⟨put, hbuilt, hlength, hput, hget, hstored, hlost, ?_⟩
  rintro ⟨response, hreply, hstatus⟩
  rw [hlost] at hreply
  have hstatuses := congrArg Header.peekStatus? (Reply.send.inj hreply)
  rw [← List.append_nil (Header.encode _), Packet.encode, Header.peekStatus?_encode_append,
    Header.peekStatus?_encode_append, hstatus] at hstatuses
  cases hstatuses

end Cluster

end ShardedCache
