import ShardedCache.Packet.Header

namespace ShardedCache

structure Packet where
  header : Header
  body : Octets := []
deriving DecidableEq, Repr

namespace Packet

/-- The extras of a SET request: flags and expiry. -/
def setExtrasLength : UInt8 := 8

/-- The extras of a GET response: flags. -/
def getExtrasLength : UInt8 := 4

/-- The segment before the key, none if the lengths overrun the body. -/
def extras? (p : Packet) : Option Octets :=
  Octets.slice? p.body 0 p.header.extrasLength.toNat

def key? (p : Packet) : Option Octets :=
  Octets.slice? p.body p.header.extrasLength.toNat p.header.keyLength.toNat

/-- Everything after the key, none if the lengths overrun the body. -/
def value? (p : Packet) : Option Octets :=
  let start := p.header.extrasLength.toNat + p.header.keyLength.toNat
  if start ≤ p.body.length then some (p.body.drop start) else none

def encodedLength (p : Packet) : Nat :=
  Header.size + p.body.length

def encode (p : Packet) : Octets :=
  p.header.encode ++ p.body

@[simp] theorem length_encode (p : Packet) : p.encode.length = p.encodedLength := by
  simp [encode, encodedLength]

/-- The key length as the header holds it, once the whole body fits a frame. -/
def checkedKeyLength (extras : UInt8) (key value : Octets) : Except Fault UInt16 :=
  let total := extras.toNat + key.length + value.length
  if 65535 < key.length then .error (.value (.keyTooLong key.length))
  else if 4294967295 < total then .error (.value (.bodyTooLong total))
  else .ok (UInt16.ofNat key.length)

def getRequest (op : Opcode) (key : Octets) (echo : UInt32) : Except Fault Packet := do
  let keyLength ← checkedKeyLength 0 key []
  let header := { Header.request op with echo := echo }
  return { header := header.withLengths 0 keyLength 0, body := key }

/-- A storing request: flags and expiry as extras, then key and value. -/
def setRequest (op : Opcode) (key value : Octets) (flags expiry echo : UInt32) :
    Except Fault Packet := do
  let keyLength ← checkedKeyLength setExtrasLength key value
  let header := { Header.request op with echo := echo }
  return {
    header := header.withLengths setExtrasLength keyLength value.length
    body := Octets.bigEndian 4 flags.toNat ++ Octets.bigEndian 4 expiry.toNat ++ key ++ value }

end Packet

end ShardedCache
