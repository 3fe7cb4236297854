import ShardedCache.Command.Options
import ShardedCache.Octets.Text
import ShardedCache.Stream.Framed

namespace ShardedCache.Command

inductive Request where
  | get (key : String)
  | set (key value : String) (flags expiry : UInt32)
  | noop
deriving DecidableEq, Repr

structure Call where
  server : String := "127.0.0.1:11211"
  /-- How long the server may take over a read or a write, in milliseconds. -/
  timeout : UInt64 := 5000
  request : Request
deriving Repr

/-- How a client ends: its exit code and what it has printed. -/
structure Ending where
  exitCode : Nat
  output : String := ""
  errors : String := ""
deriving DecidableEq, Repr

def octetsOf (text : String) : Octets :=
  text.toUTF8.toList

namespace Call

def word64 (text : String) : Bool :=
  (natural? UInt64.size text).isSome

def word32 (text : String) : Bool :=
  (signed? UInt32.size text).isSome

def grammar : Grammar where
  flags :=
    [{ letter := 's', long := "server" }, { letter := 't', long := "timeout-ms", accepts := word64 }]

def setGrammar : Grammar where
  flags :=
    [{ letter := 'f', long := "flags", accepts := word32 },
      { letter := 'e', long := "expiry", accepts := word32 }]

/-- The operands of a command, exactly as many as it has. -/
def operands (grammar : Grammar) (count : Nat) (words : List Octets) : Except Stop Line := do
  let (line, left) ← grammar.read count {} words
  if left = [] ∧ line.operands.length = count then .ok line else .error .refused

def commands : List String := ["get", "set", "noop", "help"]

def requestOf (command : String) (words : List Octets) : Except Stop Request :=
  match command with
  | "get" => do
    let line ← operands { flags := [] } 1 words
    match line.operands with
    | [key] => .ok (.get key)
    | _ => .error .refused
  | "set" => do
    let line ← operands setGrammar 2 words
    let number (letter : Char) : UInt32 :=
      UInt32.ofNat (((line.value? letter).bind (signed? UInt32.size)).getD 0)
    match line.operands with
    | [key, value] => .ok (.set key value (number 'f') (number 'e'))
    | _ => .error .refused
  | "noop" => do
    let _ ← operands { flags := [] } 0 words
    return .noop
  | "help" =>
    match words.mapM fun word => String.fromUTF8? word.toByteArray with
    | some [] => .error .informed
    | some [topic] => .error (if commands.contains topic then .informed else .refused)
    | _ => .error .refused
  | _ => .error .refused

def ofWords (words : List Octets) : Except Stop Call := do
  let (line, left) ← grammar.read 0 {} words
  match left with
  | [] => .error .refused
  | command :: words =>
    let command ← (String.fromUTF8? command.toByteArray).elim (.error .refused) .ok
    let request ← requestOf command words
    let call : Call := { request }
    return {
      request
      server := (line.value? 's').getD call.server
      timeout := (((line.value? 't').bind (natural? UInt64.size)).map UInt64.ofNat).getD call.timeout }

end Call

namespace Request

def packet : Request → Except Fault Packet
  | .get key => Packet.getRequest .get (octetsOf key) 1
  | .set key value flags expiry => Packet.setRequest .set (octetsOf key) (octetsOf value) flags expiry 1
  | .noop => .ok { header := Header.request .noop }

/-- The lines that show a response: its status, the flags if it has such, and the value if there
is one. -/
def report (response : Packet) : List String :=
  let code := response.header.status
  let status :=
    match Status.ofCode? code with
    | some status => status.message
    | none => "status 0x" ++ Octets.hex (Octets.bigEndian 2 code.toNat)
  let flags :=
    match response.extras? with
    | some extras =>
      if response.header.extrasLength = 4 then ["flags:  " ++ toString (Octets.toNat extras)] else []
    | none => []
  let value :=
    match response.value? with
    | some value => if value = [] then [] else ["value:  " ++ Octets.lossyText value]
    | none => []
  ("status: " ++ status) :: flags ++ value

def lines (texts : List String) : String :=
  String.join (texts.map (· ++ "\n"))

def failed (fault : Fault) : Ending where
  exitCode := 1
  errors := lines ["error: " ++ fault.message]

/-- How the client ends once the response is there, or cannot be had.  Not every server answers a
request to do nothing, so that its missing response is no failure. -/
def conclude (request : Request) (response : Except Fault Packet) : Ending :=
  match request, response with
  | _, .ok response => { exitCode := 0, output := lines (report response) }
  | .noop, .error fault =>
    { exitCode := 0, output := lines ["no response (" ++ fault.message ++ ")"] }
  | _, .error fault => failed fault

/-- Asks a server that takes the request and sends what is in the inlet: what went out, and how the
client ends. -/
def ask (request : Request) (sink : Sink) (inlet : Inlet) : Octets × Ending :=
  match request.packet with
  | .error fault => ([], failed fault)
  | .ok packet =>
    match sink.writePacket packet with
    | (.error fault, sink) => (sink.sent, failed fault)
    | (.ok (), sink) => (sink.sent, request.conclude inlet.readPacket.1)

end Request

end ShardedCache.Command
