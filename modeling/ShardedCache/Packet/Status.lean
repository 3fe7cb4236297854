
namespace ShardedCache

inductive Status where
  | noError
  | keyNotFound
  | keyExists
  | valueTooLarge
  | invalidArguments
  | itemNotStored
  | nonNumericValue
  | vbucketWrong
  | authError
  | authContinue
  | unknown
  | outOfMemory
  | notSupported
  | internalError
  | busy
  | tempFailure
deriving DecidableEq, Repr

namespace Status

def all : List Status :=
  [noError, keyNotFound, keyExists, valueTooLarge, invalidArguments, itemNotStored,
    nonNumericValue, vbucketWrong, authError, authContinue, unknown, outOfMemory, notSupported,
    internalError, busy, tempFailure]

/-- Outcomes of a request stand below 10, failures of the server from `0x81` on. -/
def code : Status → UInt16
  | noError => 0x0000
  | keyNotFound => 0x0001
  | keyExists => 0x0002
  | valueTooLarge => 0x0003
  | invalidArguments => 0x0004
  | itemNotStored => 0x0005
  | nonNumericValue => 0x0006
  | vbucketWrong => 0x0007
  | authError => 0x0008
  | authContinue => 0x0009
  | unknown => 0x0081
  | outOfMemory => 0x0082
  | notSupported => 0x0083
  | internalError => 0x0084
  | busy => 0x0085
  | tempFailure => 0x0086

def ofCode? (code : UInt16) : Option Status :=
  all.find? (·.code = code)

theorem ofCode?_code (s : Status) : ofCode? s.code = some s := by
  cases s <;> decide

def isSuccess (s : Status) : Bool :=
  s = noError

def message : Status → String
  | noError => "no error"
  | keyNotFound => "key not found"
  | keyExists => "key exists"
  | valueTooLarge => "value too large"
  | invalidArguments => "invalid arguments"
  | itemNotStored => "item not stored"
  | nonNumericValue => "incr or decr on non numeric value"
  | vbucketWrong => "vbucket wrong"
  | authError => "auth error"
  | authContinue => "auth continue"
  | unknown => "unknown"
  | outOfMemory => "out of memory"
  | notSupported => "not supported"
  | internalError => "internal error"
  | busy => "busy"
  | tempFailure => "temp failure"

end Status

end ShardedCache
