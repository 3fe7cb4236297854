import ShardedCache.Proofs.Frame.Assembly
import ShardedCache.Proofs.Session.Delivery
import ShardedCache.Proofs.Stream.Arrival

/-! Before an open sink, what a session does depends on the octets that arrive and not on how they are cut into reads.
`Session.account` says it of the whole stream at once. -/

namespace ShardedCache

namespace Session

variable {σ : Type}

/-- The replies to requests handled in a row, whether more may be handled then, and the handler's state
after them.  A reply that closes is the last, and a fault ends the row without one. -/
def replies (handler : Handler σ) : List Packet → σ → List Reply × Except Fault Bool × σ
  | [], state => ([], .ok true, state)
  | request :: requests, state =>
    match handler request state with
    | (.error fault, state) => ([], .error fault, state)
    | (.ok reply, state) =>
      if reply.closes then ([reply], .ok false, state)
      else
        let (later, outcome, state) := replies handler requests state
        (reply :: later, outcome, state)

theorem replies_append (handler : Handler σ) (requests more : List Packet) (state : σ) :
    replies handler (requests ++ more) state =
      match replies handler requests state with
      | (said, .ok true, state) =>
        (said ++ (replies handler more state).1, (replies handler more state).2)
      | (said, outcome, state) => (said, outcome, state) := by
  induction requests generalizing state with
  | nil => rfl
  | cons request requests ih =>
    simp only [List.cons_append, replies]
    match handler request state with
    | (.error fault, state) => rfl
    | (.ok reply, state) =>
      by_cases hcloses : reply.closes = true
      · simp only [hcloses, if_true]
      · simp only [hcloses, if_false, Bool.false_eq_true, ih state]
        match replies handler requests state with
        | (said, .ok true, state) => rfl
        | (said, .ok false, state) => rfl
        | (said, .error fault, state) => rfl

theorem handleAll_of_open (handler : Handler σ) (requests : List Packet) (state : σ) {box : Outbox}
    (h : box.sink.Open) :
    ∃ after, handleAll handler requests state box =
        ((replies handler requests state).2.1, (replies handler requests state).2.2, after) ∧
      after.sink.Open ∧
      after.wire = box.wire ++ (replies handler requests state).1.flatMap Reply.octets := by
  induction requests generalizing state box with
  | nil => exact ⟨box, rfl, h, (List.append_nil _).symm⟩
  | cons request requests ih =>
    simp only [handleAll, replies]
    match handler request state with
    | (.error fault, state) => exact ⟨box, rfl, h, (List.append_nil _).symm⟩
    | (.ok reply, state) =>
      obtain ⟨between, hperform, hbetween, hwire⟩ := perform_of_open reply h
      simp only [hperform]
      by_cases hcloses : reply.closes = true
      · simp only [hcloses, Bool.not_true, if_true]
        refine ⟨between, rfl, hbetween, ?_⟩
        rw [hwire, List.flatMap_singleton]
      · simp only [hcloses, Bool.not_false, if_false, Bool.false_eq_true]
        obtain ⟨after, hrest, hafter, hlater⟩ := ih state hbetween
        refine ⟨after, hrest, hafter, ?_⟩
        rw [hlater, hwire, List.flatMap_cons, List.append_assoc]

structure Account (σ : Type) where
  requests : List Packet
  ending : Frame.Ending
  replies : List Reply
  state : σ
  /-- The result of the session, none while it goes on. -/
  result : Option (Except Fault Unit)

/-- How a session ends that handled its requests with this outcome. -/
def resultOf (outcome : Except Fault Bool) (ending : Frame.Ending) : Option (Except Fault Unit) :=
  match outcome, ending with
  | .error fault, _ => some (.error fault)
  | .ok false, _ => some (.ok ())
  | .ok true, .violated fault => some (.error fault)
  | .ok true, .incomplete _ => none

def account (limit : Nat) (handler : Handler σ) (state : σ) (stream : Octets) : Account σ :=
  let (requests, ending) := Frame.cutAll limit stream
  let (said, outcome, state) := replies handler requests state
  { requests, ending, replies := said, state, result := resultOf outcome ending }

end Session

namespace Progress

def session : Progress → Session
  | .reading session | .ended _ session => session

def result? : Progress → Option (Except Fault Unit)
  | .reading _ => none
  | .ended result _ => some result

end Progress

namespace Session

variable {σ : Type} {limit : Nat} {handler : Handler σ} {first : σ} {sent stream : Octets}

/-- The session stands where its account of the octets arrived says, and its sink is open.  One that goes on
has kept exactly the octets that are no complete request, and has nothing queued. -/
structure Accounts (limit : Nat) (handler : Handler σ) (first : σ) (sent stream : Octets)
    (progress : Progress) (state : σ) : Prop where
  state_eq : state = (account limit handler first stream).state
  result_eq : progress.result? = (account limit handler first stream).result
  isOpen : progress.session.outbox.sink.Open
  wire_eq : progress.session.outbox.wire =
    sent ++ (account limit handler first stream).replies.flatMap Reply.octets
  idle : ∀ session, progress = .reading session →
    (account limit handler first stream).ending = .incomplete session.buffer ∧ session.outbox.queued = []

theorem account_append_of_none {rest : Octets} (more : Octets)
    (hresult : (account limit handler first stream).result = none)
    (hrest : (account limit handler first stream).ending = .incomplete rest) :
    account limit handler first (stream ++ more) =
      { account limit handler (account limit handler first stream).state (rest ++ more) with
        requests := (account limit handler first stream).requests ++
          (account limit handler (account limit handler first stream).state (rest ++ more)).requests
        replies := (account limit handler first stream).replies ++
          (account limit handler (account limit handler first stream).state (rest ++ more)).replies } := by
  match hcut : Frame.cutAll limit stream with
  | (requests, .violated fault) => simp [account, hcut] at hrest
  | (requests, .incomplete left) =>
    simp only [account, hcut, Frame.Ending.incomplete.injEq] at hrest
    subst hrest
    have happend : Frame.cutAll limit (stream ++ more) =
        (requests ++ (Frame.cutAll limit (left ++ more)).1,
          (Frame.cutAll limit (left ++ more)).2) := by
      rw [Frame.cutAll_append, hcut]
    match hsaid : replies handler requests first with
    | (said, .error fault, _) => simp [account, hcut, hsaid, resultOf] at hresult
    | (said, .ok false, _) => simp [account, hcut, hsaid, resultOf] at hresult
    | (said, .ok true, state) =>
      have hreplies := replies_append handler requests (Frame.cutAll limit (left ++ more)).1 first
      rw [hsaid] at hreplies
      simp only [account, happend, hreplies, hcut, hsaid]

theorem account_append_of_some {result : Except Fault Unit} (more : Octets)
    (h : (account limit handler first stream).result = some result) :
    (account limit handler first (stream ++ more)).replies =
        (account limit handler first stream).replies ∧
      (account limit handler first (stream ++ more)).state =
        (account limit handler first stream).state ∧
      (account limit handler first (stream ++ more)).result = some result := by
  match hcut : Frame.cutAll limit stream with
  | (requests, .violated fault) =>
    have happend : Frame.cutAll limit (stream ++ more) = (requests, .violated fault) := by
      rw [Frame.cutAll_append, hcut]
    simpa only [account, happend, hcut, true_and] using h
  | (requests, .incomplete rest) =>
    have happend : Frame.cutAll limit (stream ++ more) =
        (requests ++ (Frame.cutAll limit (rest ++ more)).1,
          (Frame.cutAll limit (rest ++ more)).2) := by
      rw [Frame.cutAll_append, hcut]
    have hreplies := replies_append handler requests (Frame.cutAll limit (rest ++ more)).1 first
    match hsaid : replies handler requests first with
    | (said, .ok true, state) => simp [account, hcut, hsaid, resultOf] at h
    | (said, .ok false, state) =>
      rw [hsaid] at hreplies
      simpa only [account, happend, hreplies, hcut, hsaid, true_and, resultOf] using h
    | (said, .error fault, state) =>
      rw [hsaid] at hreplies
      simpa only [account, happend, hreplies, hcut, hsaid, true_and, resultOf] using h

theorem digest_accounts (limit : Nat) (handler : Handler σ) (state : σ) (session : Session)
    (h : session.outbox.sink.Open) :
    Accounts limit handler state session.outbox.wire session.buffer
      (digest limit handler state session).1 (digest limit handler state session).2 := by
  match hcut : Frame.cutAll limit session.buffer with
  | (requests, ending) =>
    obtain ⟨box, hhandle, hbox, hwire⟩ := handleAll_of_open handler requests state h
    match hsaid : replies handler requests state with
    | (said, outcome, last) =>
      have haccount : account limit handler state session.buffer =
          { requests, ending, replies := said, state := last, result := resultOf outcome ending } := by
        simp only [account, hcut, hsaid]
      rw [hsaid] at hhandle hwire
      simp only [digest, hcut, hhandle]
      -- Only a session that handled all its requests and found no violation goes on to read.
      match outcome, ending with
      | .error fault, _ =>
        exact ⟨by rw [haccount], by rw [haccount]; rfl, hbox, by rw [haccount]; exact hwire, nofun⟩
      | .ok false, _ =>
        exact ⟨by rw [haccount], by rw [haccount]; rfl, hbox, by rw [haccount]; exact hwire, nofun⟩
      | .ok true, .violated fault =>
        exact ⟨by rw [haccount], by rw [haccount]; rfl, hbox, by rw [haccount]; exact hwire, nofun⟩
      | .ok true, .incomplete rest =>
        obtain ⟨after, hflush, hafter, hempty, hsent⟩ := Outbox.flush_of_open hbox
        simp only [hflush]
        refine ⟨by rw [haccount], by rw [haccount]; rfl, hafter, ?_, ?_⟩
        · rw [haccount, Progress.session, Outbox.wire, hempty, hsent, List.append_nil]
          exact hwire
        · rintro next ⟨⟩
          exact ⟨by rw [haccount], hempty⟩

theorem Accounts.append {session : Session} {state last : σ} {more : Octets} {progress : Progress}
    (h : Accounts limit handler first sent stream (.reading session) state)
    (hmore : Accounts limit handler state session.outbox.wire (session.buffer ++ more) progress last) :
    Accounts limit handler first sent (stream ++ more) progress last := by
  have hrest := (h.idle session rfl).1
  have happend := account_append_of_none more h.result_eq.symm hrest
  rw [← h.state_eq] at happend
  refine ⟨?_, ?_, hmore.isOpen, ?_, ?_⟩
  · rw [happend]
    exact hmore.state_eq
  · rw [happend]
    exact hmore.result_eq
  · rw [hmore.wire_eq, happend, List.flatMap_append, ← List.append_assoc]
    exact congrArg (· ++ _) h.wire_eq
  · intro next hnext
    rw [happend]
    exact hmore.idle next hnext

theorem advance_accounts {event : ReadEvent} {progress : Progress} {state : σ}
    (h : Accounts limit handler first sent stream progress state) (hevent : event.flows) :
    Accounts limit handler first sent (stream ++ Inlet.arriving [event])
      (advance limit handler (progress, state) event).1
      (advance limit handler (progress, state) event).2 := by
  match progress with
  | .ended result session =>
    obtain ⟨hreplies, hstate, hresult⟩ :=
      account_append_of_some (Inlet.arriving [event]) h.result_eq.symm
    exact ⟨h.state_eq.trans hstate.symm, hresult.symm, h.isOpen,
      by rw [hreplies]; exact h.wire_eq, nofun⟩
  | .reading session =>
    match event with
    | .data [] => simp [ReadEvent.flows] at hevent
    | .data (b :: bs) =>
      have harrive : Inlet.arriving [.data (b :: bs)] = b :: bs := by simp [Inlet.arriving]
      rw [harrive]
      exact h.append (digest_accounts limit handler state
        { session with buffer := session.buffer ++ b :: bs } h.isOpen)
    | .fail error =>
      have hkind : error.kind = .interrupted := by simpa [ReadEvent.flows] using hevent
      have harrive : Inlet.arriving [.fail error] = [] := by simp [Inlet.arriving]
      have hdigest := digest_accounts limit handler state session h.isOpen
      rw [harrive, advance, receive, if_pos hkind]
      exact h.append (by rw [List.append_nil]; exact hdigest)

theorem foldl_advance_of_flows {inlet : Inlet} {progress : Progress} {state : σ}
    (h : Accounts limit handler first sent stream progress state) (hinlet : ∀ event ∈ inlet, event.flows) :
    Accounts limit handler first sent (stream ++ Inlet.arriving inlet)
      (inlet.foldl (advance limit handler) (progress, state)).1
      (inlet.foldl (advance limit handler) (progress, state)).2 := by
  induction inlet generalizing stream progress state with
  | nil =>
    rw [Inlet.arriving, List.append_nil]
    exact h
  | cons event inlet ih =>
    have hevent := hinlet event List.mem_cons_self
    have harrive : Inlet.arriving (event :: inlet) = Inlet.arriving [event] ++ Inlet.arriving inlet :=
      Inlet.arriving_append_of_flows [event] inlet (by simpa using hevent)
    rw [harrive, ← List.append_assoc]
    exact ih (advance_accounts h hevent) fun other hother =>
      hinlet other (List.mem_cons_of_mem event hother)

theorem advance_of_not_flows (limit : Nat) (handler : Handler σ) {event : ReadEvent}
    (h : event.flows = false) (session : Session) (state : σ) :
    ∃ result, advance limit handler (.reading session, state) event = (.ended result session, state) ∧
      (result = .ok () ∨ ∃ error : IoError, result = .error (.io error)) := by
  cases event with
  | data chunk =>
    have hchunk : chunk = [] := by simpa [ReadEvent.flows] using h
    subst hchunk
    exact ⟨.ok (), rfl, .inl rfl⟩
  | fail error =>
    have hkind : ¬ error.kind = .interrupted := by simpa [ReadEvent.flows] using h
    exact ⟨.error (.io error), by rw [advance, receive, if_neg hkind], .inr ⟨error, rfl⟩⟩

theorem foldl_advance_ended (inlet : Inlet) (result : Except Fault Unit) (session : Session)
    (state : σ) :
    inlet.foldl (advance limit handler) (.ended result session, state) =
      (.ended result session, state) := by
  induction inlet with
  | nil => rfl
  | cons event inlet ih => exact ih

theorem accounts_nil (limit : Nat) (handler : Handler σ) (state : σ) {sink : Sink} (h : sink.Open) :
    Accounts limit handler state sink.sent [] (.reading { outbox := { sink := sink } }) state := by
  have haccount : account limit handler state [] =
      { requests := [], ending := .incomplete [], replies := [], state := state, result := none } := by
    simp only [account, Frame.cutAll_nil, replies, resultOf]
  refine ⟨by rw [haccount], by rw [haccount]; rfl, h, by rw [haccount]; rfl, ?_⟩
  rintro session ⟨⟩
  exact ⟨by rw [haccount], rfl⟩

theorem start_of_open (limit : Nat) (handler : Handler σ) (state : σ) {sink : Sink} (h : sink.Open) :
    ∃ sent : Sink, start limit handler sink state = (.reading { outbox := { sink := sent } }, state) ∧
      sent.Open := by
  have hbox : ({ sink := sink } : Outbox).sink.Open := h
  obtain ⟨⟨sent, queued⟩, hflush, hopen, hqueued, -⟩ := Outbox.flush_of_open hbox
  simp only at hqueued
  subst hqueued
  exact ⟨sent, by simp only [start, digest, Frame.cutAll_nil, handleAll, hflush], hopen⟩

/-- A session at rest, its sink open, answers one request that arrives in any chunks and is at rest
again. -/
theorem foldl_advance_one {request : Packet} {state after : σ} {reply : Reply} {sink : Sink}
    {inlet : Inlet} (hrequest : request.Assembled limit) (hinlet : ∀ event ∈ inlet, event.flows)
    (harrive : Inlet.arriving inlet = request.encode) (hsink : sink.Open)
    (hreply : handler request state = (.ok reply, after)) (hcloses : reply.closes = false) :
    ∃ sent : Sink,
      inlet.foldl (advance limit handler) (.reading { outbox := { sink := sink } }, state) =
          (.reading { outbox := { sink := sent } }, after) ∧
        sent.Open ∧ sent.sent = sink.sent ++ reply.octets := by
  have haccounts := foldl_advance_of_flows (accounts_nil limit handler state hsink) hinlet
  rw [List.nil_append, harrive] at haccounts
  have hcut : Frame.cutAll limit request.encode = ([request], .incomplete []) := by
    have hcons := Frame.cutAll_encode_append hrequest []
    rwa [List.append_nil, Frame.cutAll_nil] at hcons
  have haccount : account limit handler state request.encode =
      { requests := [request], ending := .incomplete [], replies := [reply], state := after,
        result := none } := by
    simp only [account, hcut, replies, hreply, hcloses, resultOf, Bool.false_eq_true, if_false]
  match hfold : inlet.foldl (advance limit handler) (.reading { outbox := { sink := sink } }, state) with
  | (progress, last) =>
    rw [hfold] at haccounts
    obtain ⟨hstate, hresult, hopen, hwire, hidle⟩ := haccounts
    rw [haccount] at hstate hresult hwire hidle
    match progress with
    | .ended result session => cases hresult
    | .reading session =>
      obtain ⟨hbuffer, hqueued⟩ := hidle session rfl
      obtain ⟨buffer, box, queued⟩ := session
      obtain rfl := Frame.Ending.incomplete.inj hbuffer
      simp only at hqueued hstate
      subst hqueued hstate
      refine ⟨box, rfl, hopen, ?_⟩
      simpa only [Progress.session, Outbox.wire, List.append_nil, List.flatMap_singleton] using hwire

theorem portions_flow (room : Nat) {chunk : Octets} (h : chunk ≠ []) :
    (portions room chunk).flatten = chunk ∧ ∀ piece ∈ portions room chunk, piece ≠ [] := by
  induction hn : chunk.length using Nat.strongRecOn generalizing chunk with
  | ind n ih =>
    rw [portions]
    split
    · rename_i hroom
      have hdrop : chunk.drop room ≠ [] := by
        intro hnil
        have hle := List.drop_eq_nil_iff.mp hnil
        omega
      obtain ⟨hjoin, hpieces⟩ :=
        ih (chunk.drop room).length (by rw [List.length_drop]; omega) hdrop rfl
      refine ⟨by rw [List.flatten_cons, hjoin, List.take_append_drop], ?_⟩
      intro piece hpiece
      rcases List.mem_cons.mp hpiece with rfl | hpiece
      · intro hnil
        have hlen := congrArg List.length hnil
        rw [List.length_take, List.length_nil] at hlen
        omega
      · exact hpieces piece hpiece
    · exact ⟨List.append_nil _, by simpa using h⟩

theorem arriving_reads (inlet : Inlet) : Inlet.arriving (reads inlet) = Inlet.arriving inlet := by
  have hpieces (pieces : List Octets) (rest : Inlet) (h : ∀ piece ∈ pieces, piece ≠ []) :
      Inlet.arriving (pieces.map .data ++ rest) = pieces.flatten ++ Inlet.arriving rest := by
    induction pieces with
    | nil => rfl
    | cons piece pieces ih =>
      have hne := h piece List.mem_cons_self
      rw [List.map_cons, List.cons_append, Inlet.arriving, if_neg hne,
        ih fun piece hp => h piece (List.mem_cons_of_mem _ hp), List.flatten_cons, List.append_assoc]
  induction inlet with
  | nil => rfl
  | cons event inlet ih =>
    rw [reads, List.flatMap_cons, ← reads]
    cases event with
    | data chunk =>
      by_cases hchunk : chunk = []
      · have hempty : portions readSize [] = [[]] := by rw [portions]; rfl
        simp only [hchunk, hempty, List.map_cons, List.cons_append, Inlet.arriving, if_true]
      · obtain ⟨hjoin, hne⟩ := portions_flow readSize hchunk
        rw [hpieces _ _ hne, hjoin, ih, Inlet.arriving, if_neg hchunk]
    | fail error => simp only [List.cons_append, List.nil_append, Inlet.arriving, ih]

theorem reads_flow {inlet : Inlet} (h : ∀ event ∈ inlet, event.flows) :
    ∀ event ∈ reads inlet, event.flows := by
  intro event hevent
  obtain ⟨source, hsource, hmem⟩ := List.mem_flatMap.mp hevent
  have hflows := h source hsource
  cases source with
  | data chunk =>
    have hne : chunk ≠ [] := by simpa [ReadEvent.flows] using hflows
    obtain ⟨piece, hpiece, rfl⟩ := List.mem_map.mp hmem
    simpa [ReadEvent.flows] using (portions_flow readSize hne).2 piece hpiece
  | fail error =>
    obtain rfl := List.mem_singleton.mp hmem
    exact hflows

end Session

end ShardedCache
