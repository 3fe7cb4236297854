import ShardedCache.Stream

namespace ShardedCache

structure Outbox where
  sink : Sink := {}
  queued : Octets := []
deriving Repr

namespace Outbox

/-- The octets that may wait. -/
def capacity : Nat := 8192

/-- Passes on what waits.  On failure the octets that did not get through keep waiting. -/
def passOn (box : Outbox) : Except IoError Unit × Outbox :=
  let (accepted, outcome, script) := WriteEvent.pushAll .stuckBuffer box.sink.writes box.queued
  (outcome,
    { sink := { box.sink with writes := script, sent := box.sink.sent ++ accepted }
      queued := box.queued.drop accepted.length })

/-- Queues octets.  What waits goes out first if they do not fit beside it, and octets that do not
fit at all are written at once. -/
def put (bs : Octets) (box : Outbox) : Except IoError Unit × Outbox :=
  let room := capacity - box.queued.length
  if bs.length < room then (.ok (), { box with queued := box.queued ++ bs })
  else
    -- Octets that fill the room exactly are queued without a write.
    match (if room < bs.length then box.passOn else (.ok (), box)) with
    | (.error error, box) => (.error error, box)
    | (.ok (), box) =>
      if capacity ≤ bs.length then
        let (outcome, sink) := box.sink.writeAll .shortWrite bs
        (outcome, { box with sink := sink })
      else (.ok (), { box with queued := box.queued ++ bs })

def flush (box : Outbox) : Except IoError Unit × Outbox :=
  match box.passOn with
  | (.error error, box) => (.error error, box)
  | (.ok (), box) =>
    let (outcome, sink) := box.sink.flush
    (outcome, { box with sink := sink })

/-- Gives the box up: what waits is passed on as far as it gets. -/
def abandon (box : Outbox) : Outbox :=
  box.passOn.2

end Outbox

end ShardedCache
