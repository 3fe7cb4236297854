import ShardedCache.Address
import ShardedCache.Frame
import ShardedCache.Stream
import Std.Async.TCP
import Std.Async.Timer

namespace ShardedCache.Socket

open Std.Async

abbrev Wire := TCP.Socket.Client

def endpoint (address : Address) : Std.Net.SocketAddress :=
  match address.host with
  | .v4 a b c d => .v4 ⟨.ofParts a b c d, address.port⟩
  | .v6 groups _ => .v6 ⟨⟨groups⟩, address.port⟩

def addressOf : Std.Net.SocketAddress → Address
  | .v4 ⟨⟨octets⟩, port⟩ => ⟨.v4 octets[0] octets[1] octets[2] octets[3], port⟩
  | .v6 ⟨⟨segments⟩, port⟩ => ⟨.v6 segments 0, port⟩

/-- What an operation on a socket failed of. -/
def failure (error : IO.Error) : IoError :=
  let kind : IoKind :=
    match error with
    | .interrupted .. => .interrupted
    | .resourceVanished .. => .connectionReset
    | .timeExpired .. => .timedOut
    | .unexpectedEof => .unexpectedEnd
    | _ => .other
  ⟨kind, toString error⟩

def timeout : IoError :=
  ⟨.wouldBlock, "Resource temporarily unavailable (os error 11)"⟩

/-- Does something that must not take longer than `limit` milliseconds, if there is a limit. -/
def within {α : Type} (limit : Option UInt64) (action : Async α) : IO (Except IoError α) := do
  try
    match limit with
    | none => return .ok (← action.block)
    | some milliseconds =>
      -- Both run; whichever ends first decides.
      let work ← ((do return some (← action)) : Async (Option α)).asTask
      let clock ←
        ((do sleep (.ofNat milliseconds.toNat); return none) : Async (Option α)).asTask
      match ← IO.ofExcept (← IO.waitAny [work, clock]) with
      | some value => return .ok value
      | none => return .error timeout
  catch error => return .error (failure error)

def connect (address : Address) (limit : Option UInt64) : IO (Except IoError Wire) := do
  try
    let wire ← TCP.Socket.Client.mk
    match ← within limit (wire.connect (endpoint address)) with
    | .error error => return .error error
    | .ok () =>
      wire.noDelay
      return .ok wire
  catch error => return .error (failure error)

def transmit (wire : Wire) (bs : Octets) (limit : Option UInt64) : IO (Except IoError Unit) :=
  if bs.isEmpty then return .ok () else within limit (wire.send bs.toByteArray)

/-- One read with room for `room` octets. -/
def receive (wire : Wire) (room : Nat) (limit : Option UInt64) : IO ReadEvent := do
  let arrival : Async (Option (Option ByteArray)) :=
    match limit with
    | none => do return some (← wire.recv? room.toUInt64)
    | some milliseconds => do
      Selectable.one #[
        .case (wire.recvSelector room.toUInt64) fun chunk => return some chunk,
        .case (← Selector.sleep (.ofNat milliseconds.toNat)) fun _ => return none]
  try
    match ← arrival.block with
    | some (some chunk) => return .data chunk.toList
    | some none => return .data []
    | none => return .fail timeout
  catch error => return .fail (failure error)

/-- Whether nothing waits to be read, not even the end of the stream. -/
def isQuiet (wire : Wire) : IO Bool := do
  match ← receive wire 1 (some 1) with
  | .fail error => return error == timeout
  | .data _ => return false

def hangUp (wire : Wire) : IO Unit := do
  let _ ← within (some 1000) wire.shutdown
  return ()

/-- How much of a frame is known to be needed once `arrived` is there. -/
def needed (arrived : Octets) : Nat :=
  match Header.peekTotalBody? arrived with
  | none => Header.size
  | some announced =>
    if Frame.defaultLimit < announced.toNat then Header.size else Header.size + announced.toNat

/-- What arrives until a frame is there, or until nothing more will come. -/
partial def gather (wire : Wire) (limit : Option UInt64) : IO Inlet := do
  let rec more (inlet : List ReadEvent) (count : Nat) (front : Octets) : IO Inlet := do
    if needed front ≤ count then return inlet.reverse
    else
      match ← receive wire 65536 limit with
      | .data [] => return (.data [] :: inlet).reverse
      | .data chunk =>
        let front := if Header.size ≤ front.length then front else front ++ chunk
        more (.data chunk :: inlet) (count + chunk.length) (front.take Header.size)
      | .fail error => return (.fail error :: inlet).reverse
  more [] 0 []

end ShardedCache.Socket
