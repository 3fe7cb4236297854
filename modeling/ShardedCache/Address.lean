
namespace ShardedCache

/-- A host, version 4 or version 6.  A version 6 host has eight groups and may name a scope. -/
inductive Host where
  | v4 (a b c d : UInt8)
  | v6 (groups : Vector UInt16 8) (scope : UInt32)
deriving DecidableEq, Repr

structure Address where
  host : Host
  port : UInt16
deriving DecidableEq, Repr

end ShardedCache
