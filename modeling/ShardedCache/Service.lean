import ShardedCache.Item
import ShardedCache.Reply
import ShardedCache.Store

namespace ShardedCache.Service

def lookupResponse (request : Header) (status : Status) (flags : UInt32) (key value : Octets) :
    Packet where
  header := (request.statusFor status).withLengths Packet.getExtrasLength
    (UInt16.ofNat key.length) value.length
  body := Octets.bigEndian 4 flags.toNat ++ key ++ value

/-- Answers a lookup.  A quiet one that misses says nothing. -/
def lookup (op : Opcode) (request : Packet) (now : Nat) (store : Store) :
    Except Fault Reply × Store :=
  match request.key? with
  | none => (.ok (.invalidArguments op request.header), store)
  | some key =>
    let shown := if op.returnsKey then key else []
    match store.get key now with
    | (some blob, store) =>
      match Item.unpack blob with
      | .error fault => (.error fault, store)
      | .ok item =>
        (.ok (.packet (lookupResponse request.header .noError item.flags shown item.value)), store)
    | (none, store) =>
      if op.isQuiet then (.ok .silent, store)
      else (.ok (.packet (lookupResponse request.header .keyNotFound 0 shown [])), store)

/-- Answers a request to store.  Flags and expiry open the extras, longer extras are passed over;
a quiet one that succeeds says nothing. -/
def put (op : Opcode) (request : Packet) (now : Nat) (store : Store) : Reply × Store :=
  let refused := (Reply.invalidArguments op request.header, store)
  if request.header.extrasLength < Packet.setExtrasLength then refused
  else
    match request.extras?, request.key?, request.value? with
    | some extras, some key, some value =>
      let (flags, extras) := Octets.number 4 extras
      let (expiry, _) := Octets.number 4 extras
      let blob := Item.pack { value, flags := UInt32.ofNat flags }
      let store := store.set key blob (UInt32.ofNat expiry) now
      (if op = .setQ then .silent else .packet { header := request.header.responseTo }, store)
    | _, _, _ => refused

def answer (request : Packet) (now : Nat) (store : Store) : Except Fault Reply × Store :=
  let notSupported := Reply.status request.header .notSupported
  match request.header.command? with
  | some .get => lookup .get request now store
  | some .getQ => lookup .getQ request now store
  | some .getK => lookup .getK request now store
  | some .getKQ => lookup .getKQ request now store
  | some .set =>
    let (reply, store) := put .set request now store
    (.ok reply, store)
  | some .setQ =>
    let (reply, store) := put .setQ request now store
    (.ok reply, store)
  | some .quitQ => (.ok .close, store)
  | some .quit => (.ok notSupported.andClose, store)
  | some op => (.ok (if op.isQuiet then .silent else notSupported), store)
  | none => (.ok notSupported, store)

end ShardedCache.Service
