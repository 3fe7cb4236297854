import ShardedCache.Fault

namespace ShardedCache

/-- Settings of a server or a proxy.  Times are in milliseconds. -/
structure Settings where
  listenAddress : String := "127.0.0.1:11212"
  maxConnections : UInt64 := 1024
  readTimeout : UInt64 := 0
  writeTimeout : UInt64 := 5000
  maxBodyLength : UInt64 := 16777216
  backends : List String := []
  backendTimeout : UInt64 := 5000
  sweepInterval : UInt64 := 60000
  idleLifetime : UInt64 := 30000
deriving DecidableEq, Repr

namespace Settings

/-- A time limit, none if it is switched off. -/
def timeLimit (milliseconds : UInt64) : Option UInt64 :=
  if 0 < milliseconds then some milliseconds else none

def readLimit (s : Settings) : Option UInt64 :=
  timeLimit s.readTimeout

def writeLimit (s : Settings) : Option UInt64 :=
  timeLimit s.writeTimeout

def backendLimit (s : Settings) : Option UInt64 :=
  timeLimit s.backendTimeout

/-- The time between two sweeps, at least one millisecond. -/
def sweepPeriod (s : Settings) : UInt64 :=
  max s.sweepInterval 1

inductive Change where
  | listenAddress (address : String)
  | maxConnections (count : UInt64)
  | readTimeout (milliseconds : UInt64)
  | writeTimeout (milliseconds : UInt64)
  | maxBodyLength (octets : UInt64)
  | backend (address : String)
  /-- These backends and no others. -/
  | backends (addresses : List String)
  | backendTimeout (milliseconds : UInt64)
  | sweepInterval (milliseconds : UInt64)
  | idleLifetime (milliseconds : UInt64)
deriving DecidableEq, Repr

def apply (s : Settings) : Change → Settings
  | .listenAddress address => { s with listenAddress := address }
  | .maxConnections count => { s with maxConnections := count }
  | .readTimeout milliseconds => { s with readTimeout := milliseconds }
  | .writeTimeout milliseconds => { s with writeTimeout := milliseconds }
  | .maxBodyLength octets => { s with maxBodyLength := octets }
  | .backend address => { s with backends := s.backends ++ [address] }
  | .backends addresses => { s with backends := addresses }
  | .backendTimeout milliseconds => { s with backendTimeout := milliseconds }
  | .sweepInterval milliseconds => { s with sweepInterval := milliseconds }
  | .idleLifetime milliseconds => { s with idleLifetime := milliseconds }

def applyAll (s : Settings) (changes : List Change) : Settings :=
  changes.foldl apply s

end Settings

end ShardedCache
