import ShardedCache.Command.Options
import ShardedCache.Server
import ShardedCache.Settings.Document
import ShardedCache.Shards

namespace ShardedCache.Command

inductive Mode where
  | server
  | proxy
deriving DecidableEq, Repr

namespace Mode

def name : Mode → String
  | server => "server"
  | proxy => "proxy"

def defaultAddress : Mode → String
  | server => "127.0.0.1:11212"
  | proxy => "127.0.0.1:11211"

def version : String := "0.1.0"

def grammar (mode : Mode) : Grammar where
  hasVersion := true
  flags :=
    let word (text : String) : Bool := (natural? UInt64.size text).isSome
    [{ letter := 'c', long := "config" }, { letter := 'l', long := "listen" },
      { letter := 'm', long := "max-connections", accepts := word }] ++
    match mode with
    | server => []
    | proxy =>
      [{ letter := 'b', long := "backend", repeats := true },
        { letter := 't', long := "backend-timeout-ms", accepts := word }]

end Mode

structure Launch where
  config : Option String := none
  listen : Option String := none
  backends : List String := []
  backendTimeout : Option UInt64 := none
  maxConnections : Option UInt64 := none
deriving DecidableEq, Repr

structure Remark where
  level : String
  text : String
deriving DecidableEq, Repr

namespace Remark

def info (text : String) : Remark := ⟨"INFO", text⟩

def error (text : String) : Remark := ⟨"ERROR", text⟩

end Remark

/-- What is known once everything is checked. -/
structure Readiness where
  settings : Settings
  address : Address
  /-- The backends; a server has none. -/
  shards : Option Shards

namespace Launch

def ofWords (mode : Mode) (words : List Octets) : Except Stop Launch := do
  let (line, left) ← mode.grammar.read 0 {} words
  let word (letter : Char) : Option UInt64 :=
    ((line.value? letter).bind (natural? UInt64.size)).map UInt64.ofNat
  if left = [] then
    return {
      config := line.value? 'c'
      listen := line.value? 'l'
      backends := line.values 'b'
      backendTimeout := word 't'
      maxConnections := word 'm' }
  else .error .refused

/-- The address to listen at that the command line decides on, which it does also by naming no
settings file. -/
def listenAddress (mode : Mode) (launch : Launch) : Option String :=
  launch.listen.or (if launch.config.isNone then some mode.defaultAddress else none)

/-- What the command line changes about the settings of the file. -/
def changes (mode : Mode) (launch : Launch) : List Settings.Change :=
  ((launch.listenAddress mode).map .listenAddress).toList ++
    (if launch.backends = [] then [] else [.backends launch.backends]) ++
    (launch.backendTimeout.map .backendTimeout).toList ++
    (launch.maxConnections.map .maxConnections).toList

/-- The settings in force, where `file` is what the settings file says if one is named. -/
def settings (mode : Mode) (launch : Launch) (file : Option Settings) : Settings :=
  (file.getD {}).applyAll (launch.changes mode)

/-- The settings that the named file holds, if one is named; `read` gives the content of a file. -/
def loadFile (launch : Launch) (read : String → Option Octets) : Except Fault (Option Settings) :=
  match launch.config with
  | none => .ok none
  | some path => (Settings.ofFile path (read path)).map some

/-- Checks everything there is to check before the program listens: the log so far, and what the
program then runs with, none if it has to give up. -/
def prepare (mode : Mode) (launch : Launch) (read : String → Option Octets) :
    List Remark × Option Readiness :=
  let opening := [Remark.info ("memrelay " ++ mode.name ++ " v" ++ Mode.version)]
  match launch.loadFile read with
  | .error fault => (opening ++ [.error ("Failed to load config: " ++ fault.message)], none)
  | .ok file =>
    let settings := launch.settings mode file
    let log := opening ++ [.info ("Listen address: " ++ settings.listenAddress)]
    let listen (log : List Remark) (shards : Option Shards) : List Remark × Option Readiness :=
      match Server.listenAddress settings with
      | .error fault =>
        (log ++ [.error ("Failed to start " ++ mode.name ++ ": " ++ fault.message)], none)
      | .ok address => (log, some { settings, address, shards })
    match mode with
    | .server => listen log none
    | .proxy =>
      let log := log ++ [.info ("Backends: " ++ ", ".intercalate settings.backends)]
      match Shards.ofTexts settings.backends with
      | .error fault => (log ++ [.error ("Invalid backends: " ++ fault.message)], none)
      | .ok shards => listen log (some shards)

end Launch

end ShardedCache.Command
