import ShardedCache.Fault
import ShardedCache.Packet.Opcode
import ShardedCache.Packet.Status

namespace ShardedCache

/-- A header with its fields as they stand on the wire.  The command byte is kept raw, so that an
unknown one survives. -/
structure Header where
  magic : UInt8 := 0
  opcode : UInt8 := 0
  keyLength : UInt16 := 0
  extrasLength : UInt8 := 0
  dataType : UInt8 := 0
  status : UInt16 := 0
  /-- The lengths of extras, key and value together. -/
  totalBody : UInt32 := 0
  /-- Comes back unchanged in the response. -/
  echo : UInt32 := 0
  cas : UInt64 := 0
deriving DecidableEq, Repr

namespace Header

def size : Nat := 24

def requestMagic : UInt8 := 0x80

def responseMagic : UInt8 := 0x81

def isRequest (h : Header) : Bool :=
  h.magic = requestMagic

def isResponse (h : Header) : Bool :=
  h.magic = responseMagic

def request (op : Opcode) : Header :=
  { magic := requestMagic, opcode := op.byte }

/-- The header of a response to `h`: its command byte and its echo, all else zero. -/
def responseTo (h : Header) : Header :=
  { magic := responseMagic, opcode := h.opcode, echo := h.echo }

def statusFor (h : Header) (status : Status) : Header :=
  { responseTo h with status := status.code }

/-- Sets the lengths of the three segments; their sum is kept modulo `2 ^ 32`. -/
def withLengths (h : Header) (extras : UInt8) (key : UInt16) (value : Nat) : Header :=
  { h with
    extrasLength := extras
    keyLength := key
    totalBody := UInt32.ofNat (value + extras.toNat + key.toNat) }

def command? (h : Header) : Option Opcode :=
  Opcode.ofByte? h.opcode

/-- The length that the other lengths leave to the value, none if they exceed the body. -/
def valueLength? (h : Header) : Option Nat :=
  let front := h.extrasLength.toNat + h.keyLength.toNat
  if front ≤ h.totalBody.toNat then some (h.totalBody.toNat - front) else none

def encode (h : Header) : Octets :=
  Octets.bigEndian 1 h.magic.toNat ++ Octets.bigEndian 1 h.opcode.toNat ++
    Octets.bigEndian 2 h.keyLength.toNat ++ Octets.bigEndian 1 h.extrasLength.toNat ++
    Octets.bigEndian 1 h.dataType.toNat ++ Octets.bigEndian 2 h.status.toNat ++
    Octets.bigEndian 4 h.totalBody.toNat ++ Octets.bigEndian 4 h.echo.toNat ++
    Octets.bigEndian 8 h.cas.toNat

@[simp] theorem length_encode (h : Header) : h.encode.length = size := by
  simp [encode, size]

/-- Reads a header off the front.  A string too short for one is left as it is. -/
def decode (bs : Octets) : Except Fault Header × Octets :=
  if bs.length < size then
    (.error (.framing (.shortHeader bs.length)), bs)
  else
    let (magic, bs) := Octets.number 1 bs
    let (opcode, bs) := Octets.number 1 bs
    let (keyLength, bs) := Octets.number 2 bs
    let (extrasLength, bs) := Octets.number 1 bs
    let (dataType, bs) := Octets.number 1 bs
    let (status, bs) := Octets.number 2 bs
    let (totalBody, bs) := Octets.number 4 bs
    let (echo, bs) := Octets.number 4 bs
    let (cas, bs) := Octets.number 8 bs
    (.ok
      { magic := UInt8.ofNat magic
        opcode := UInt8.ofNat opcode
        keyLength := UInt16.ofNat keyLength
        extrasLength := UInt8.ofNat extrasLength
        dataType := UInt8.ofNat dataType
        status := UInt16.ofNat status
        totalBody := UInt32.ofNat totalBody
        echo := UInt32.ofNat echo
        cas := UInt64.ofNat cas }, bs)

theorem decode_encode (h : Header) (rest : Octets) : decode (h.encode ++ rest) = (.ok h, rest) := by
  have hlen : ¬ (h.encode ++ rest).length < size := by simp
  rw [decode, if_neg hlen]
  have hmagic := h.magic.toNat_lt
  have hopcode := h.opcode.toNat_lt
  have hkey := h.keyLength.toNat_lt
  have hextras := h.extrasLength.toNat_lt
  have htype := h.dataType.toNat_lt
  have hstatus := h.status.toNat_lt
  have htotal := h.totalBody.toNat_lt
  have hecho := h.echo.toNat_lt
  have hcas := h.cas.toNat_lt
  simp only [encode, List.append_assoc, Octets.number_append]
  simp [Nat.mod_eq_of_lt, hmagic, hopcode, hkey, hextras, htype, hstatus, htotal, hecho, hcas]

/-- The total body length in a raw header, none if the string ends before it does. -/
def peekTotalBody? (bs : Octets) : Option UInt32 :=
  (Octets.slice? bs 8 4).map fun field => UInt32.ofNat (Octets.toNat field)

def peekStatus? (bs : Octets) : Option UInt16 :=
  (Octets.slice? bs 6 2).map fun field => UInt16.ofNat (Octets.toNat field)

end Header

end ShardedCache
