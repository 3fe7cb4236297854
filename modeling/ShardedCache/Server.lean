import ShardedCache.Address.Text
import ShardedCache.Dictionary
import ShardedCache.Server.Roster
import ShardedCache.Session
import ShardedCache.Settings

namespace ShardedCache

structure Server (σ : Type) where
  settings : Settings
  state : σ
  roster : Roster
  sessions : Dictionary UInt64 Progress := .empty
  isStopped : Bool := false

namespace Server

variable {σ : Type}

def listenAddress (settings : Settings) : Except Fault Address :=
  (Address.ofText settings.listenAddress).mapError fun reason =>
    .settings (.cannotListen settings.listenAddress reason)

def start (settings : Settings) (state : σ) : Server σ where
  settings := settings
  state := state
  roster := { limit := settings.maxConnections.toNat }

def bodyLimit (server : Server σ) : Nat :=
  server.settings.maxBodyLength.toNat

/-- Notes where the session of a client stands.  A client whose session is over leaves. -/
def note (server : Server σ) (client : UInt64) : Progress × σ → Server σ
  | (.reading session, state) =>
    { server with state := state, sessions := server.sessions.insert client (.reading session) }
  | (.ended result session, state) =>
    let (result, session) := Session.settle result session
    { server with
      state := state
      sessions := server.sessions.insert client (.ended result session)
      roster := server.roster.leave client }

/-- A client connects.  A server that has stopped, or has no room, turns it away. -/
def connect (handler : Handler σ) (server : Server σ) : Admission × Server σ :=
  if server.isStopped then (.turnedAway, server)
  else
    match server.roster.arrive none with
    | (.started client, roster) =>
      let begun := Session.start server.bodyLimit handler {} server.state
      (.started client, { server with roster := roster }.note client begun)
    | (admission, roster) => (admission, { server with roster := roster })

def deliver (handler : Handler σ) (client : UInt64) (event : ReadEvent) (server : Server σ) :
    Server σ :=
  match server.sessions.find? client with
  | some (.reading session) =>
    server.note client
      ((Session.reads [event]).foldl (Session.advance server.bodyLimit handler)
        (.reading session, server.state))
  | _ => server

def output (server : Server σ) (client : UInt64) : Octets :=
  match server.sessions.find? client with
  | some (.reading session) => session.outbox.sink.sent
  | some (.ended _ session) => session.output
  | none => []

/-- Stops: no client is taken any more, and those connected find their streams at an end. -/
def stop (handler : Handler σ) (server : Server σ) : Server σ :=
  server.roster.clients.foldl (fun server client => server.deliver handler client (.data []))
    { server with isStopped := true }

end Server

end ShardedCache
