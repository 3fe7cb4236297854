import ShardedCache.Octets

/-! The values of JSON texts, kept as close to the text as their meaning allows: a number is its literal and a
string its pieces, so that a part that nobody reads need not mean anything. -/

namespace ShardedCache

/-- One element of a written string: a character, or a sixteen-bit unit given by its number. -/
inductive Piece where
  | char (c : Char)
  | unit (u : UInt16)
deriving DecidableEq, Repr

namespace Piece

def isHighSurrogate (u : UInt16) : Bool :=
  0xD800 ≤ u && u ≤ 0xDBFF

def isLowSurrogate (u : UInt16) : Bool :=
  0xDC00 ≤ u && u ≤ 0xDFFF

/-- The character that a high and a low surrogate stand for. -/
def joined (high low : UInt16) : Char :=
  Char.ofNat (0x10000 + (high.toNat - 0xD800) * 0x400 + (low.toNat - 0xDC00))

/-- The text that the pieces write, none if a surrogate stands alone. -/
def text? : List Piece → Option (List Char)
  | [] => some []
  | .char c :: rest => (text? rest).map (c :: ·)
  | .unit u :: rest =>
    if isLowSurrogate u then none
    else if isHighSurrogate u then
      match rest with
      | .unit v :: rest =>
        if isLowSurrogate v then (text? rest).map (joined u v :: ·) else none
      | _ => none
    else (text? rest).map (Char.ofNat u.toNat :: ·)

def escapes : List (Char × Char) :=
  [('"', '"'), ('\\', '\\'), ('/', '/'), ('b', '\x08'), ('f', '\x0c'), ('n', '\n'), ('r', '\r'),
    ('t', '\t')]

/-- The piece as which a character is written.  The slash needs no escape, and only control
characters without a letter of their own are given by number. -/
def ofChar (c : Char) : Piece :=
  if c.toNat < 0x20 && !(escapes.map (·.2)).contains c then .unit (UInt16.ofNat c.toNat)
  else .char c

def written : Piece → List Char
  | .char c =>
    if c = '/' then [c]
    else
      match escapes.find? (·.2 = c) with
      | some (letter, _) => ['\\', letter]
      | none => [c]
  | .unit u =>
    ['\\', 'u', Octets.hexDigit (u.toNat / 4096), Octets.hexDigit (u.toNat / 256 % 16),
      Octets.hexDigit (u.toNat / 16 % 16), Octets.hexDigit (u.toNat % 16)]

end Piece

inductive Json where
  | null
  | boolean (value : Bool)
  | number (literal : List Char)
  | string (pieces : List Piece)
  | array (items : List Json)
  | object (members : List (List Piece × Json))
deriving Repr

namespace Json

def ofText (text : String) : Json :=
  .string (text.toList.map Piece.ofChar)

def ofNat (n : Nat) : Json :=
  .number (Nat.toDigits 10 n)

def text? : Json → Option String
  | .string pieces => (Piece.text? pieces).map String.ofList
  | _ => none

/-- A number below `2 ^ 64`, written without sign, fraction and exponent. -/
def word? : Json → Option UInt64
  | .number literal =>
    if literal.all Char.isDigit then
      let value := literal.foldl (fun value c => value * 10 + (c.toNat - '0'.toNat)) 0
      if value < UInt64.size then some (UInt64.ofNat value) else none
    else none
  | _ => none

def texts? : Json → Option (List String)
  | .array items => items.mapM text?
  | _ => none

def quoted (pieces : List Piece) : List Char :=
  '"' :: pieces.flatMap Piece.written ++ ['"']

mutual

def compact : Json → List Char
  | .null => ['n', 'u', 'l', 'l']
  | .boolean true => ['t', 'r', 'u', 'e']
  | .boolean false => ['f', 'a', 'l', 's', 'e']
  | .number literal => literal
  | .string pieces => quoted pieces
  | .array items => '[' :: compactItems items ++ [']']
  | .object members => '\x7b' :: compactMembers members ++ ['\x7d']

def compactItems : List Json → List Char
  | [] => []
  | [item] => compact item
  | item :: items => compact item ++ ',' :: compactItems items

def compactMembers : List (List Piece × Json) → List Char
  | [] => []
  | [(key, value)] => quoted key ++ ':' :: compact value
  | (key, value) :: members => quoted key ++ ':' :: compact value ++ ',' :: compactMembers members

end

end Json

end ShardedCache
