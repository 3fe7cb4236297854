import ShardedCache.Octets

/-! A word that begins with two hyphens names an option by its long name, one that begins with one hyphen by its
letter; the value follows in the same word or in the next.  Every word after two hyphens alone is an operand. -/

namespace ShardedCache.Command

structure Flag where
  letter : Char
  long : String
  accepts : String → Bool := fun _ => true
  /-- Whether it may be given more than once. -/
  repeats : Bool := false

/-- Why a command is not carried out. -/
inductive Stop where
  | refused
  /-- It only asked for help, or for the version. -/
  | informed
deriving DecidableEq, Repr

def Stop.exitCode : Stop → Nat
  | .refused => 2
  | .informed => 0

/-- What a command line gives: values of options by their letters, and operands. -/
structure Line where
  given : List (Char × String) := []
  operands : List String := []
deriving DecidableEq, Repr

namespace Line

def value? (line : Line) (letter : Char) : Option String :=
  line.given.lookup letter

def values (line : Line) (letter : Char) : List String :=
  (line.given.filter (·.1 = letter)).map (·.2)

end Line

inductive Word where
  | operand (text : String)
  | separator
  | long (name : String) (value : Option String)
  | short (letter : Char) (value : Option String)
deriving DecidableEq, Repr

namespace Word

def ofChars : List Char → Word
  | ['-', '-'] => .separator
  | '-' :: '-' :: rest =>
    let name := String.ofList (rest.takeWhile (· ≠ '='))
    match rest.dropWhile (· ≠ '=') with
    | [] => .long name none
    | _ :: value => .long name (some (String.ofList value))
  | ['-', letter] => .short letter none
  | '-' :: letter :: '=' :: value => .short letter (some (String.ofList value))
  | '-' :: letter :: value => .short letter (some (String.ofList value))
  | text => .operand (String.ofList text)

def ofOctets (bs : Octets) : Option Word :=
  (String.fromUTF8? bs.toByteArray).map fun text => ofChars text.toList

def operand? : Word → Option String
  | .operand text => some text
  | _ => none

end Word

/-- The options that a command knows, and whether it also tells its version. -/
structure Grammar where
  flags : List Flag
  hasVersion : Bool := false

namespace Grammar

def note (flag : Flag) (value : String) (line : Line) : Except Stop Line :=
  if !flag.accepts value || (!flag.repeats && (line.value? flag.letter).isSome) then .error .refused
  else .ok { line with given := line.given ++ [(flag.letter, value)] }

/-- Reads words until more operands come than there is room for; what is left over begins with
the first of them. -/
def read (rules : Grammar) : (room : Nat) → Line → List Octets → Except Stop (Line × List Octets)
  | _, line, [] => .ok (line, [])
  | room, line, word :: words => do
    let informs (letter : Char) (long : String) (flag : Option Char) (name : String) : Bool :=
      flag = some letter || name = long
    let stops (flag : Option Char) (name : String) : Bool :=
      informs 'h' "help" flag name || (rules.hasVersion && informs 'V' "version" flag name)
    let option (flag : Option Flag) (value : Option String) : Except Stop (Line × List Octets) :=
      match flag, value with
      | none, _ => .error .refused
      | some flag, some value => do read rules room (← note flag value line) words
      | some flag, none =>
        match words with
        | [] => .error .refused
        | next :: words =>
          match (Word.ofOctets next).bind Word.operand? with
          | none => .error .refused
          | some value => do read rules room (← note flag value line) words
    match Word.ofOctets word with
    | none => .error .refused
    | some (.operand text) =>
      match room with
      | 0 => .ok (line, word :: words)
      | room + 1 => read rules room { line with operands := line.operands ++ [text] } words
    -- Every word after a separator is an operand, whatever it looks like.
    | some .separator =>
      match words.mapM fun word => String.fromUTF8? word.toByteArray with
      | none => .error .refused
      | some texts =>
        if texts.length ≤ room then .ok ({ line with operands := line.operands ++ texts }, [])
        else .error .refused
    | some (.long name value) =>
      if stops none name && value.isNone then .error .informed
      else option (rules.flags.find? (·.long = name)) value
    | some (.short letter value) =>
      if stops (some letter) "" then .error .informed
      else option (rules.flags.find? (·.letter = letter)) value

end Grammar

/-- A number below `bound` in decimal, with or without a plus sign. -/
def natural? (bound : Nat) (text : String) : Option Nat :=
  let digits := if text.toList.head? = some '+' then text.toList.tail else text.toList
  if digits ≠ [] ∧ digits.all Char.isDigit then
    let value := digits.foldl (fun value c => value * 10 + (c.toNat - '0'.toNat)) 0
    if value < bound then some value else none
  else none

/-- A number below `bound` with any sign, which is no more than zero if the sign is a minus. -/
def signed? (bound : Nat) (text : String) : Option Nat :=
  match text.toList with
  | '-' :: '+' :: _ => none
  | '-' :: digits => natural? 1 (String.ofList digits)
  | _ => natural? bound text

end ShardedCache.Command
