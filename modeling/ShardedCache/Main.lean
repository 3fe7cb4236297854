import ShardedCache.Command.Client
import ShardedCache.Command.Launch
import ShardedCache.Relay.Link
import ShardedCache.Relay.Shared
import ShardedCache.Service
import ShardedCache.Socket
import Std.Time

/-! `server` answers from a store in memory, `proxy` relays to backends and `cli` asks either of them. -/

namespace ShardedCache.Program

open Std.Async
open Socket (Wire)

abbrev Answerer := Packet → IO (Except Fault Reply)

def report (remark : Command.Remark) : IO Unit := do
  IO.println (remark.level ++ " " ++ remark.text)
  (← IO.getStdout).flush

/-- The seconds since 1970. -/
def unixSeconds : IO Nat := do
  return (← Std.Time.Timestamp.now).toSecondsSinceUnixEpoch.val.toNat

def fromStore (store : IO.Ref Store) : Answerer := fun request => do
  let now ← unixSeconds
  store.modifyGet (Service.answer request now)

/-- What happens on the wire when a request is sent and a frame is waited for. -/
def exchange (wire : Wire) (request : Octets) (limit patience : Option UInt64) : IO Exchange := do
  match ← Socket.transmit wire request limit with
  | .error error => return { writes := [.fail error] }
  | .ok () => return { reads := ← Socket.gather wire patience }

/-- A connection to a backend: the link as it went so far, and what carries it. -/
structure Backend where
  link : Link
  wire : Wire

namespace Backend

def dial (made : IO.Ref Nat) (limit : Option UInt64) (address : Address) :
    IO (Except IoError Backend) := do
  match ← Socket.connect address limit with
  | .error error => return .error error
  | .ok wire =>
    let id ← made.modifyGet fun made => (made, made + 1)
    return .ok { link := { id, peer := address, plan := [] }, wire }

/-- Whether no exchange failed on it and nothing waits to be read. -/
def isUsable (backend : Backend) : IO Bool :=
  if backend.link.spoiled || !backend.link.inlet.isEmpty then return false
  else Socket.isQuiet backend.wire

def converse (limit : Option UInt64) (request : Octets) (backend : Backend) :
    IO (Except Fault Octets × Backend) := do
  let met ← exchange backend.wire request limit limit
  let (_, answer, link) := { backend.link with plan := [met] }.exchange request
  return (answer, { backend with link })

end Backend

/-- A relay to these backends, for any number of clients at once. -/
def relay (settings : Settings) (shards : Shards) (queues : IO.Ref (Pool Address Backend))
    (made : IO.Ref Nat) : Relay.Shared IO Backend where
  pool :=
    { update := queues.modifyGet
      usable := Backend.isUsable
      close := fun backend => Socket.hangUp backend.wire
      clock := IO.monoMsNow }
  owner := shards.owner
  dial := Backend.dial made settings.backendLimit
  converse := Backend.converse settings.backendLimit
  spoil backend := { backend with link := { backend.link with spoiled := true } }

def keepSweeping (pool : Pool.Shared IO Address Backend) (period : UInt64) : IO Unit := do
  repeat
    IO.sleep (UInt32.ofNat (min period.toNat 4000000000))
    discard pool.sweep

/-- Answers requests in order, up to the first after which the connection ends. -/
def answerAll (answer : Answerer) : List Packet → IO (List (Except Fault Reply))
  | [] => return []
  | request :: requests => do
    let reply ← answer request
    match reply with
    | .error _ => return [reply]
    | .ok said =>
      if said.closes then return [reply] else return reply :: (← answerAll answer requests)

/-- Hands out replies that are known already. -/
def known : Handler (List (Except Fault Reply)) := fun _ replies =>
  match replies with
  | reply :: replies => (reply, replies)
  | [] => (.ok .silent, [])

partial def serve (settings : Settings) (answer : Answerer) (wire : Wire) : Progress → IO Unit
  | .ended result session => do
    let (_, session) := Session.settle result session
    let _ ← Socket.transmit wire session.output settings.writeLimit
    Socket.hangUp wire
  | .reading session => do
    match ← Socket.transmit wire session.outbox.sink.sent settings.writeLimit with
    | .error _ => return ()
    | .ok () =>
      let session := { session with outbox := {} }
      let limit := settings.maxBodyLength.toNat
      let event ← Socket.receive wire Session.readSize settings.readLimit
      let requests :=
        match event with
        | .data chunk => (Frame.cutAll limit (session.buffer ++ chunk)).1
        | .fail _ => []
      let replies ← answerAll answer requests
      serve settings answer wire (session.receive limit known event replies).1

partial def accept (settings : Settings) (answer : Answerer) (listener : TCP.Socket.Server)
    (roster : IO.Ref Roster) : IO Unit := do
  match ← Socket.within none listener.accept with
  | .error _ => IO.sleep 20
  | .ok wire =>
    match ← roster.modifyGet fun roster => roster.arrive none with
    | .started client =>
      let session : IO Unit := do
        try serve settings answer wire (.reading {})
        catch _ => pure ()
        roster.modify fun roster => roster.leave client
      let _ ← IO.asTask session Task.Priority.dedicated
    | _ => Socket.hangUp wire
  accept settings answer listener roster

def contentOf? (path : String) : IO (Option Octets) := do
  try return some (← IO.FS.readBinFile path).toList
  catch _ => return none

/-- How requests are answered under these settings: from backends if there are any. -/
def answerer (settings : Settings) (shards : Option Shards) : IO Answerer := do
  match shards with
  | none => return fromStore (← IO.mkRef {})
  | some shards =>
    let queues ← IO.mkRef { lifetime := settings.idleLifetime.toNat }
    let relay := relay settings shards queues (← IO.mkRef 0)
    let _ ← IO.asTask (keepSweeping relay.pool settings.sweepPeriod) Task.Priority.dedicated
    return fun request => return .ok (← relay.route request)

def launch (mode : Command.Mode) (words : List Octets) : IO UInt32 := do
  match Command.Launch.ofWords mode words with
  | .error stop => return UInt32.ofNat stop.exitCode
  | .ok launch =>
    let content ←
      match launch.config with
      | some path => contentOf? path
      | none => pure none
    let (log, readiness) := launch.prepare mode fun _ => content
    log.forM report
    match readiness with
    | none => return 1
    | some { settings, address, shards } =>
      try
        let listener ← TCP.Socket.Server.mk
        listener.bind (Socket.endpoint address)
        listener.listen 128
        listener.noDelay
        let answer ← answerer settings shards
        let bound := Socket.addressOf (← listener.getSockName)
        report (.info ("Listening on " ++ bound.text))
        accept settings answer listener (← IO.mkRef { limit := settings.maxConnections.toNat })
        return 0
      catch error =>
        let reason := AddressFault.unknownHost (toString error)
        let fault := Fault.settings (.cannotListen settings.listenAddress reason)
        report (.error ("Failed to start " ++ mode.name ++ ": " ++ fault.message))
        return 1

def finish (ending : Command.Ending) : IO UInt32 := do
  IO.print ending.output
  IO.eprint ending.errors
  return UInt32.ofNat ending.exitCode

def ask (call : Command.Call) : IO UInt32 := do
  let failed (fault : Fault) : IO UInt32 := finish (Command.Request.failed fault)
  match call.request.packet, Address.ofText call.server with
  | .error fault, _ => failed fault
  | .ok _, .error reason => failed (.io ⟨.other, reason.message⟩)
  | .ok packet, .ok address =>
    match ← Socket.connect address none with
    | .error error => failed (.io error)
    | .ok wire =>
      let limit := some (max call.timeout 1)
      let patience := if call.request = .noop then some 200 else limit
      let met ← exchange wire packet.encode limit patience
      finish (call.request.ask { writes := met.writes } met.reads).2

def run (arguments : List String) : IO UInt32 := do
  match arguments with
  | "server" :: words => launch .server (words.map Command.octetsOf)
  | "proxy" :: words => launch .proxy (words.map Command.octetsOf)
  | "cli" :: words =>
    match Command.Call.ofWords (words.map Command.octetsOf) with
    | .error stop => return UInt32.ofNat stop.exitCode
    | .ok call => ask call
  | _ =>
    IO.eprintln "usage: (server | proxy | cli) [OPTIONS] ..."
    return 2

end ShardedCache.Program

def main (arguments : List String) : IO UInt32 :=
  ShardedCache.Program.run arguments
