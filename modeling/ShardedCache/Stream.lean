import ShardedCache.Fault

/-! What the far end of a stream does is a list of events: each read or write meets the next one.  Exact reads and whole
writes end with the script, so they are structural recursions on it. -/

namespace ShardedCache

/-- What one read meets: a chunk of which it takes what it has room for, or a failure.
An empty chunk is the end of the stream. -/
inductive ReadEvent where
  | data (chunk : Octets)
  | fail (error : IoError)
deriving DecidableEq, Repr

/-- The reading side of a stream: the events still to come, and the end of the stream after them. -/
abbrev Inlet := List ReadEvent

namespace Inlet

def pending (inlet : Inlet) : Octets :=
  inlet.flatMap fun
    | .data chunk => chunk
    | .fail _ => []

/-- Reads exactly `n` octets.  On failure the octets read so far are gone. -/
def readExact : Nat → Inlet → Except IoError Octets × Inlet
  | 0, inlet => (.ok [], inlet)
  | _ + 1, [] => (.error .shortRead, [])
  | n + 1, .fail error :: rest =>
    if error.kind = .interrupted then readExact (n + 1) rest else (.error error, rest)
  | n + 1, .data chunk :: rest =>
    if chunk = [] then (.error .shortRead, rest)
    -- The chunk may be much longer than what is read here, so its length is not asked for.
    else if chunk.drop (n + 1) = [] then
      let (tail, rest) := readExact (n + 1 - chunk.length) rest
      (tail.map (chunk ++ ·), rest)
    else (.ok (chunk.take (n + 1)), .data (chunk.drop (n + 1)) :: rest)

end Inlet

/-- What one write meets: room for at most `n` octets, or a failure. -/
inductive WriteEvent where
  | take (n : Nat)
  | fail (error : IoError)
deriving DecidableEq, Repr

namespace WriteEvent

/-- Pushes octets through a write script until all are accepted or a write fails: the octets
accepted, the outcome, and the events not met.  A write that accepts none fails with `stuck`.
After the script everything is accepted. -/
def pushAll (stuck : IoError) :
    List WriteEvent → Octets → Octets × Except IoError Unit × List WriteEvent
  | script, [] => ([], .ok (), script)
  | [], bs => (bs, .ok (), [])
  | .fail error :: script, b :: bs =>
    if error.kind = .interrupted then pushAll stuck script (b :: bs)
    else ([], .error error, script)
  | .take n :: script, b :: bs =>
    if n = 0 then ([], .error stuck, script)
    else
      let (accepted, outcome, script) := pushAll stuck script ((b :: bs).drop n)
      ((b :: bs).take n ++ accepted, outcome, script)

end WriteEvent

/-- The writing side of a stream: the events that writes and flushes meet, and what came through. -/
structure Sink where
  writes : List WriteEvent := []
  /-- The outcomes of the flushes to come; after them every flush succeeds. -/
  flushes : List (Option IoError) := []
  sent : Octets := []
  /-- The flushes so far, failed ones included. -/
  flushed : Nat := 0
deriving Repr

namespace Sink

def writeAll (stuck : IoError) (bs : Octets) (sink : Sink) : Except IoError Unit × Sink :=
  let (accepted, outcome, script) := WriteEvent.pushAll stuck sink.writes bs
  (outcome, { sink with writes := script, sent := sink.sent ++ accepted })

def flush (sink : Sink) : Except IoError Unit × Sink :=
  let after := { sink with flushes := sink.flushes.tail, flushed := sink.flushed + 1 }
  match sink.flushes with
  | some error :: _ => (.error error, after)
  | _ => (.ok (), after)

end Sink

end ShardedCache
