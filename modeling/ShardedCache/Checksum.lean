import ShardedCache.Octets

namespace ShardedCache.Checksum

/-- One step of the division by the reflected polynomial, which is subtracted if a one fell out. -/
def shift (register : UInt32) : UInt32 :=
  if register &&& 1 = 1 then (register >>> 1) ^^^ 0xEDB88320 else register >>> 1

def absorb (register : UInt32) (b : UInt8) : UInt32 :=
  Nat.repeat shift 8 (register ^^^ b.toUInt32)

/-- The cyclic redundancy check, its register and its result complemented. -/
def crc32 (bs : Octets) : UInt32 :=
  ~~~ bs.foldl absorb 0xFFFFFFFF

/-- The published check value: the checksum of the digits one to nine. -/
example : crc32 [0x31, 0x32, 0x33, 0x34, 0x35, 0x36, 0x37, 0x38, 0x39] = 0xCBF43926 := by
  decide +kernel

end ShardedCache.Checksum
