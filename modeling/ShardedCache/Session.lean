import ShardedCache.Frame
import ShardedCache.Reply
import ShardedCache.Session.Outbox

/-! A session reads what the client sends, hands every complete request to a handler and does what the reply says.  It
flushes before each read, so that no answer is held back while it waits. -/

namespace ShardedCache

/-- What answers requests: from a state, a reply or a fault, and the state after it. -/
abbrev Handler (σ : Type) := Packet → σ → Except Fault Reply × σ

structure Session where
  buffer : Octets := []
  outbox : Outbox := {}
deriving Repr

/-- Where a session stands: about to read, or over. -/
inductive Progress where
  | reading (session : Session)
  | ended (result : Except Fault Unit) (session : Session)

namespace Session

def readSize : Nat := 16384

/-- Does what a reply says; false if the session ends with it. -/
def perform (reply : Reply) (box : Outbox) : Except IoError Bool × Outbox :=
  match reply with
  | .silent => (.ok true, box)
  | .send bytes =>
    let (outcome, box) := box.put bytes
    (outcome.map fun _ => true, box)
  | .flush =>
    let (outcome, box) := box.flush
    (outcome.map fun _ => true, box)
  | .sendAndClose bytes =>
    match box.put bytes with
    | (.error error, box) => (.error error, box)
    | (.ok (), box) =>
      let (outcome, box) := box.flush
      (outcome.map fun _ => false, box)
  | .close =>
    let (outcome, box) := box.flush
    (outcome.map fun _ => false, box)

variable {σ : Type}

/-- Handles requests one after the other, until a reply ends the session or something fails. -/
def handleAll (handler : Handler σ) :
    List Packet → σ → Outbox → Except Fault Bool × σ × Outbox
  | [], state, box => (.ok true, state, box)
  | request :: requests, state, box =>
    match handler request state with
    | (.error fault, state) => (.error fault, state, box)
    | (.ok reply, state) =>
      match perform reply box with
      | (.error error, box) => (.error (.io error), state, box)
      | (.ok false, box) => (.ok false, state, box)
      | (.ok true, box) => handleAll handler requests state box

def digest (limit : Nat) (handler : Handler σ) (state : σ) (session : Session) : Progress × σ :=
  let (requests, ending) := Frame.cutAll limit session.buffer
  let (outcome, state, box) := handleAll handler requests state session.outbox
  let after := { session with outbox := box }
  match outcome, ending with
  | .error fault, _ => (.ended (.error fault) after, state)
  | .ok false, _ => (.ended (.ok ()) after, state)
  | .ok true, .violated fault => (.ended (.error fault) after, state)
  | .ok true, .incomplete rest =>
    match box.flush with
    | (.error error, box) => (.ended (.error (.io error)) { after with outbox := box }, state)
    -- Only here does a session go on to read, with nothing queued.
    | (.ok (), box) => (.reading { buffer := rest, outbox := box }, state)

/-- What the read that a session waits for brings about.  The end of the stream ends it. -/
def receive (limit : Nat) (handler : Handler σ) (event : ReadEvent) (state : σ)
    (session : Session) : Progress × σ :=
  match event with
  | .data [] => (.ended (.ok ()) session, state)
  | .data chunk => digest limit handler state { session with buffer := session.buffer ++ chunk }
  | .fail error =>
    if error.kind = .interrupted then digest limit handler state session
    else (.ended (.error (.io error)) session, state)

def advance (limit : Nat) (handler : Handler σ) (before : Progress × σ) (event : ReadEvent) :
    Progress × σ :=
  match before with
  | (.reading session, state) => receive limit handler event state session
  | (.ended result session, state) => (.ended result session, state)

/-- The reads, with room for `room` octets each, in which a chunk arrives. -/
def portions (room : Nat) (chunk : Octets) : List Octets :=
  if 0 < room ∧ room < chunk.length then chunk.take room :: portions room (chunk.drop room)
  else [chunk]
termination_by chunk.length
decreasing_by simp only [List.length_drop]; omega

def reads (inlet : Inlet) : List ReadEvent :=
  inlet.flatMap fun
    | .data chunk => (portions readSize chunk).map .data
    | .fail error => [.fail error]

/-- How a session's result is reported.  A client that goes away or keeps silent too long is no
failure; before any other failure is reported, what was answered goes out. -/
def settle (result : Except Fault Unit) (session : Session) : Except Fault Unit × Session :=
  match result with
  | .ok () => (.ok (), session)
  | .error fault =>
    if fault.isHangup || fault.isTimeout then (.ok (), session)
    else (.error fault, { session with outbox := session.outbox.flush.2 })

def start (limit : Nat) (handler : Handler σ) (sink : Sink) (state : σ) : Progress × σ :=
  digest limit handler state { outbox := { sink := sink } }

/-- A session after all that its client sends and the end of the stream. -/
def serve (limit : Nat) (handler : Handler σ) (inlet : Inlet) (sink : Sink) (state : σ) :
    Except Fault Unit × Session × σ :=
  match (reads inlet).foldl (advance limit handler) (start limit handler sink state) with
  | (.reading session, state) => (.ok (), session, state)
  | (.ended result session, state) => (result, session, state)

/-- Serves one client from its first octet to its last, and reports the result. -/
def run (limit : Nat) (handler : Handler σ) (inlet : Inlet) (sink : Sink) (state : σ) :
    Except Fault Unit × Session × σ :=
  let (result, session, state) := serve limit handler inlet sink state
  let (result, session) := settle result session
  (result, session, state)

/-- Everything the client gets, once the connection is given up. -/
def output (session : Session) : Octets :=
  session.outbox.abandon.sink.sent

end Session

end ShardedCache
