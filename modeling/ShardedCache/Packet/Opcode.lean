import ShardedCache.Octets

namespace ShardedCache

/-- The commands, in the order of their bytes on the wire. -/
inductive Opcode where
  | get | set | add | replace | delete | increment | decrement | quit | flush
  | getQ | noop | version | getK | getKQ | append | prepend | stat
  | setQ | addQ | replaceQ | deleteQ | incrementQ | decrementQ | quitQ | flushQ | appendQ | prependQ
deriving DecidableEq, Repr

namespace Opcode

def all : List Opcode :=
  [get, set, add, replace, delete, increment, decrement, quit, flush,
    getQ, noop, version, getK, getKQ, append, prepend, stat,
    setQ, addQ, replaceQ, deleteQ, incrementQ, decrementQ, quitQ, flushQ, appendQ, prependQ]

def byte (op : Opcode) : UInt8 :=
  UInt8.ofNat (all.idxOf op)

def ofByte? (b : UInt8) : Option Opcode :=
  all[b.toNat]?

theorem ofByte?_byte (op : Opcode) : ofByte? op.byte = some op := by
  cases op <;> decide

theorem byte_of_ofByte? {b : UInt8} {op : Opcode} (h : ofByte? b = some op) : op.byte = b := by
  obtain ⟨hlt, rfl⟩ := List.getElem?_eq_some_iff.mp h
  have hb : b = UInt8.ofNat b.toNat := UInt8.ofNat_toNat.symm
  have hlt' : b.toNat < 27 := hlt
  generalize b.toNat = n at *
  subst hb
  revert n
  decide

/-- Commands that answer nothing on their uninteresting outcome. -/
def isQuiet : Opcode → Bool
  | getQ | getKQ | setQ | addQ | replaceQ | deleteQ | incrementQ | decrementQ | quitQ | flushQ
  | appendQ | prependQ => true
  | _ => false

/-- Commands that concern every shard and not one key. -/
def isBroadcast : Opcode → Bool
  | flush | noop | stat | flushQ => true
  | _ => false

/-- Quiet changes, whose success is not answered.  A quiet lookup is none: its hits are answered. -/
def suppressesSuccess : Opcode → Bool
  | setQ | addQ | replaceQ | deleteQ | incrementQ | decrementQ | appendQ | prependQ => true
  | _ => false

/-- The form that always answers, under which an error of a quiet command is reported. -/
def syncForm : Opcode → Opcode
  | getQ => get
  | getKQ => getK
  | setQ => set
  | addQ => add
  | replaceQ => replace
  | deleteQ => delete
  | incrementQ => increment
  | decrementQ => decrement
  | appendQ => append
  | prependQ => prepend
  | op => op

def returnsKey : Opcode → Bool
  | getK | getKQ => true
  | _ => false

def name : Opcode → String
  | get => "GET"
  | set => "SET"
  | add => "ADD"
  | replace => "REPLACE"
  | delete => "DELETE"
  | increment => "INCREMENT"
  | decrement => "DECREMENT"
  | quit => "QUIT"
  | flush => "FLUSH"
  | getQ => "GETQ"
  | noop => "NOOP"
  | version => "VERSION"
  | getK => "GETK"
  | getKQ => "GETKQ"
  | append => "APPEND"
  | prepend => "PREPEND"
  | stat => "STAT"
  | setQ => "SETQ"
  | addQ => "ADDQ"
  | replaceQ => "REPLACEQ"
  | deleteQ => "DELETEQ"
  | incrementQ => "INCREMENTQ"
  | decrementQ => "DECREMENTQ"
  | quitQ => "QUITQ"
  | flushQ => "FLUSHQ"
  | appendQ => "APPENDQ"
  | prependQ => "PREPENDQ"

/-- The name of the command with this byte, and the byte itself where there is none. -/
def nameOfByte (b : UInt8) : String :=
  match ofByte? b with
  | some op => op.name
  | none => "UNKNOWN(0x" ++ Octets.hex [b] ++ ")"

end Opcode

end ShardedCache
