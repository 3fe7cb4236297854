import ShardedCache.Frame
import ShardedCache.Stream

namespace ShardedCache

namespace Inlet

def pieceSize : Nat := 16384

/-- The lengths of the pieces in which `n` octets are read: full ones, then what is left over. -/
def pieces (size n : Nat) : List Nat :=
  List.replicate (n / size) size ++ if n % size = 0 then [] else [n % size]

def readEach : List Nat → Inlet → Except IoError Octets × Inlet
  | [], inlet => (.ok [], inlet)
  | n :: ns, inlet =>
    match readExact n inlet with
    | (.error error, rest) => (.error error, rest)
    | (.ok piece, rest) =>
      let (tail, rest) := readEach ns rest
      (tail.map (piece ++ ·), rest)

/-- Reads one frame of either direction, header and body as they came.  A body announced beyond the
limit is refused with only the header read. -/
def readFrame (limit : Nat) (inlet : Inlet) : Except Fault Octets × Inlet :=
  match readExact Header.size inlet with
  | (.error error, rest) => (.error (.io error), rest)
  | (.ok header, rest) =>
    let announced := ((Header.peekTotalBody? header).getD 0).toNat
    if limit < announced then (.error (.framing (.bodyTooLong announced limit)), rest)
    else
      match readEach (pieces pieceSize announced) rest with
      | (.error error, rest) => (.error (.io error), rest)
      | (.ok body, rest) => (.ok (header ++ body), rest)

def readPacket (inlet : Inlet) : Except Fault Packet × Inlet :=
  match readFrame Frame.defaultLimit inlet with
  | (.error fault, rest) => (.error fault, rest)
  | (.ok frame, rest) =>
    match Header.decode frame with
    | (.error fault, _) => (.error fault, rest)
    | (.ok header, body) => (.ok { header, body }, rest)

end Inlet

def Sink.writePacket (p : Packet) (sink : Sink) : Except Fault Unit × Sink :=
  match sink.writeAll .shortWrite p.encode with
  | (.error error, sink) => (.error (.io error), sink)
  | (.ok (), sink) =>
    let (outcome, sink) := sink.flush
    (outcome.mapError .io, sink)

end ShardedCache
