import ShardedCache.Packet

namespace ShardedCache

inductive Reply where
  | silent
  | send (bytes : Octets)
  /-- These octets are queued, all that is queued goes out, and the connection ends. -/
  | sendAndClose (bytes : Octets)
  | flush
  /-- All that is queued goes out, and the connection ends. -/
  | close
deriving DecidableEq, Repr

namespace Reply

def packet (p : Packet) : Reply :=
  .send p.encode

def status (request : Header) (status : Status) : Reply :=
  .send (request.statusFor status).encode

/-- The refusal of a request whose lengths overrun its body.  It is always sent, and reported under
the form of the command that always answers. -/
def invalidArguments (op : Opcode) (request : Header) : Reply :=
  .send { request.statusFor .invalidArguments with opcode := op.syncForm.byte }.encode

/-- The octets the reply puts on the wire, if any. -/
def bytes? : Reply → Option Octets
  | send bytes | sendAndClose bytes => some bytes
  | _ => none

/-- The same reply, after which the connection ends. -/
def andClose : Reply → Reply
  | send bytes => sendAndClose bytes
  | silent | flush => close
  | reply => reply

def closes : Reply → Bool
  | sendAndClose _ | close => true
  | _ => false

end Reply

end ShardedCache
