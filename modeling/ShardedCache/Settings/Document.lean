import ShardedCache.Json.Reading
import ShardedCache.Settings

/-! A settings document is an object whose members each decide one field, or an array that decides the first fields in
their order; fields it does not decide keep their defaults. -/

namespace ShardedCache.Settings

inductive Field where
  | listenAddress
  | maxConnections
  | readTimeout
  | writeTimeout
  | maxBodyLength
  | backends
  | backendTimeout
  | sweepInterval
  | idleLifetime
deriving DecidableEq, Repr

namespace Field

def all : List Field :=
  [listenAddress, maxConnections, readTimeout, writeTimeout, maxBodyLength, backends, backendTimeout,
    sweepInterval, idleLifetime]

def name : Field → String
  | listenAddress => "listen_addr"
  | maxConnections => "max_connections"
  | readTimeout => "read_timeout_ms"
  | writeTimeout => "write_timeout_ms"
  | maxBodyLength => "max_body_length"
  | backends => "backends"
  | backendTimeout => "backend_timeout_ms"
  | sweepInterval => "pool_sweep_interval_ms"
  | idleLifetime => "pool_ttl_ms"

def ofName? (name : String) : Option Field :=
  all.find? (·.name = name)

def json (s : Settings) : Field → Json
  | listenAddress => .ofText s.listenAddress
  | maxConnections => .ofNat s.maxConnections.toNat
  | readTimeout => .ofNat s.readTimeout.toNat
  | writeTimeout => .ofNat s.writeTimeout.toNat
  | maxBodyLength => .ofNat s.maxBodyLength.toNat
  | backends => .array (s.backends.map .ofText)
  | backendTimeout => .ofNat s.backendTimeout.toNat
  | sweepInterval => .ofNat s.sweepInterval.toNat
  | idleLifetime => .ofNat s.idleLifetime.toNat

/-- What a value decides about the field, none if it is not of the field's type. -/
def change? (value : Json) : Field → Option Change
  | listenAddress => value.text?.map .listenAddress
  | maxConnections => value.word?.map .maxConnections
  | readTimeout => value.word?.map .readTimeout
  | writeTimeout => value.word?.map .writeTimeout
  | maxBodyLength => value.word?.map .maxBodyLength
  | backends => value.texts?.map .backends
  | backendTimeout => value.word?.map .backendTimeout
  | sweepInterval => value.word?.map .sweepInterval
  | idleLifetime => value.word?.map .idleLifetime

end Field

def json (s : Settings) : Json :=
  .object (Field.all.map fun field => (field.name.toList.map Piece.char, field.json s))

def toText (s : Settings) : String :=
  String.ofList s.json.compact

/-- What the members of an object decide.  A name has to be a text; members that name no field are
passed over, and no field may be named twice. -/
def changesOfMembers? (members : List (List Piece × Json)) : Option (List Change) := do
  let named ← members.mapM fun (key, value) => (Piece.text? key).map fun name => (name, value)
  let known := named.filterMap fun (name, value) =>
    (Field.ofName? (String.ofList name)).map fun field => (field, value)
  -- A second value for a field is refused even if it is the same.
  if (known.map (·.1)).Nodup then known.mapM fun (field, value) => field.change? value else none

/-- What the items of an array decide, field by field.  There may be fewer items than fields. -/
def changesOfItems? (items : List Json) : Option (List Change) :=
  if items.length ≤ Field.all.length then
    (Field.all.zip items).mapM fun (field, value) => field.change? value
  else none

def ofJson? : Json → Option Settings
  | .object members => (changesOfMembers? members).map ({} : Settings).applyAll
  | .array items => (changesOfItems? items).map ({} : Settings).applyAll
  | _ => none

def ofText? (text : String) : Option Settings :=
  (Json.read? text.toList).bind ofJson?

/-- The settings in a file at `path`; `content` is none if it cannot be opened. -/
def ofFile (path : String) (content : Option Octets) : Except Fault Settings :=
  match content.bind fun bs => String.fromUTF8? bs.toByteArray with
  | none => .error (.settings (.unreadable path))
  | some text =>
    match ofText? text with
    | none => .error (.settings (.malformed path))
    | some settings => .ok settings

end ShardedCache.Settings
