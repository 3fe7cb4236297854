import ShardedCache.Octets

namespace ShardedCache

inductive IoKind where
  | unexpectedEnd
  | connectionReset
  | connectionAborted
  | connectionRefused
  | brokenPipe
  | interrupted
  | wouldBlock
  | timedOut
  | notConnected
  | wroteNothing
  | invalidData
  | other
deriving DecidableEq, Repr

/-- The kinds by which a peer is known to have gone away. -/
def IoKind.isHangup : IoKind → Bool
  | .unexpectedEnd | .connectionReset | .connectionAborted | .brokenPipe => true
  | _ => false

/-- The kinds by which a socket reports that its time limit passed. -/
def IoKind.isTimeout : IoKind → Bool
  | .wouldBlock | .timedOut => true
  | _ => false

/-- A failed socket operation, with the wording of whoever reported it. -/
structure IoError where
  kind : IoKind
  text : String
deriving DecidableEq, Repr

/-- The stream ended before an exact read had all its octets. -/
def IoError.shortRead : IoError :=
  ⟨.unexpectedEnd, "failed to fill whole buffer"⟩

/-- A write accepted no octet of a frame that has to go out whole. -/
def IoError.shortWrite : IoError :=
  ⟨.wroteNothing, "failed to write whole buffer"⟩

/-- A write accepted no octet of what a buffer was to pass on. -/
def IoError.stuckBuffer : IoError :=
  ⟨.wroteNothing, "failed to write the buffered data"⟩

inductive FramingFault where
  | shortHeader (available : Nat)
  | bodyTooLong (announced limit : Nat)
  | wrongMagic (magic : UInt8)
deriving DecidableEq, Repr

def FramingFault.message : FramingFault → String
  | .shortHeader available =>
    "Incomplete header: expected 24 bytes, got " ++ toString available
  | .bodyTooLong announced limit =>
    "Body of " ++ toString announced ++ " bytes exceeds the " ++ toString limit ++ " byte limit"
  | .wrongMagic magic => "Invalid magic: 0x" ++ Octets.hex [magic]

/-- A value that has no form: a stored one that does not open, or a request that no frame holds. -/
inductive ValueFault where
  | empty
  | unknownTag (tag : UInt8) (length : Nat)
  | keyTooLong (length : Nat)
  | bodyTooLong (length : Nat)
deriving DecidableEq, Repr

def ValueFault.message : ValueFault → String
  | .empty => "empty internal value"
  | .unknownTag tag length =>
    "unexpected tag 0x" ++ Octets.hex [tag] ++ " in " ++ toString length ++ "-byte value"
  | .keyTooLong length => "Key of " ++ toString length ++ " bytes exceeds the 65535 byte limit"
  | .bodyTooLong length => "Body of " ++ toString length ++ " bytes does not fit a frame"

inductive BackendFault where
  | notAResponse (magic : UInt8)
deriving DecidableEq, Repr

def BackendFault.message : BackendFault → String
  | .notAResponse magic => "response frame has magic 0x" ++ Octets.hex [magic]

inductive AddressFault where
  | noPort
  | badPort
  | unknownHost (reason : String)
deriving DecidableEq, Repr

def AddressFault.message : AddressFault → String
  | .noPort => "invalid socket address"
  | .badPort => "invalid port value"
  | .unknownHost reason => reason

inductive SettingsFault where
  | unreadable (path : String)
  | malformed (path : String)
  | noBackends
  | badBackend (address : String) (reason : AddressFault)
  | cannotListen (address : String) (reason : AddressFault)
deriving DecidableEq, Repr

def SettingsFault.message : SettingsFault → String
  | .unreadable path => "cannot read " ++ path
  | .malformed path => "cannot parse " ++ path
  | .noBackends => "no backends configured"
  | .badBackend address reason => "bad backend address " ++ address ++ ": " ++ reason.message
  | .cannotListen address reason => "cannot listen on " ++ address ++ ": " ++ reason.message

inductive FaultClass where
  | io
  | framing
  | value
  | backend
  | settings
deriving DecidableEq, Repr

/-- The words that open every message of the family. -/
def FaultClass.heading : FaultClass → String
  | .io => "IO error: "
  | .framing => "Protocol error: "
  | .value => "Invalid internal value: "
  | .backend => "Backend error: "
  | .settings => "Configuration error: "

/-- A failure of the program, by its cause. -/
inductive Fault where
  | io (error : IoError)
  | framing (cause : FramingFault)
  | value (cause : ValueFault)
  | backend (cause : BackendFault)
  | settings (cause : SettingsFault)
deriving DecidableEq, Repr

namespace Fault

def family : Fault → FaultClass
  | .io _ => .io
  | .framing _ => .framing
  | .value _ => .value
  | .backend _ => .backend
  | .settings _ => .settings

def detail : Fault → String
  | .io error => error.text
  | .framing cause => cause.message
  | .value cause => cause.message
  | .backend cause => cause.message
  | .settings cause => cause.message

def message (fault : Fault) : String :=
  fault.family.heading ++ fault.detail

/-- The peer went away; nothing failed on this side. -/
def isHangup : Fault → Bool
  | .io error => error.kind.isHangup
  | _ => false

def isTimeout : Fault → Bool
  | .io error => error.kind.isTimeout
  | _ => false

end Fault

end ShardedCache
