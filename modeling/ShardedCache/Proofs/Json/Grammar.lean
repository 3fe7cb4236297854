import ShardedCache.Json.Reading

/-! Which texts write which value.  The grammar says nothing about how a text is read. -/

namespace ShardedCache.Json

def Blanks (text : List Char) : Prop :=
  ∀ c ∈ text, isBlank c = true

theorem blanks_nil : Blanks [] :=
  nofun

structure Digits (text : List Char) : Prop where
  nonempty : text ≠ []
  digit : ∀ c ∈ text, c.isDigit = true

inductive Whole : List Char → Prop where
  | zero : Whole ['0']
  | nonzero {d : Char} {more : List Char} (hd : d ≠ '0') (h : Digits (d :: more)) : Whole (d :: more)

inductive Fraction : List Char → Prop where
  | none : Fraction []
  | point {digits : List Char} (h : Digits digits) : Fraction ('.' :: digits)

inductive Exponent : List Char → Prop where
  | none : Exponent []
  | plain {e : Char} {digits : List Char} (he : e = 'e' ∨ e = 'E') (h : Digits digits) :
    Exponent (e :: digits)
  | signed {e sign : Char} {digits : List Char} (he : e = 'e' ∨ e = 'E')
    (hsign : sign = '+' ∨ sign = '-') (h : Digits digits) : Exponent (e :: sign :: digits)

inductive Literal : List Char → Prop where
  | plain {whole fraction exponent : List Char} (hwhole : Whole whole) (hfraction : Fraction fraction)
    (hexponent : Exponent exponent) : Literal (whole ++ fraction ++ exponent)
  | negative {whole fraction exponent : List Char} (hwhole : Whole whole)
    (hfraction : Fraction fraction) (hexponent : Exponent exponent) :
    Literal ('-' :: whole ++ fraction ++ exponent)

/-- The texts that write one piece of a string. -/
inductive SpellsPiece : Piece → List Char → Prop where
  | plain {c : Char} (hcontrol : 0x20 ≤ c.toNat) (hquote : c ≠ '"') (hback : c ≠ '\\') :
    SpellsPiece (.char c) [c]
  | escaped {letter c : Char} (h : (letter, c) ∈ Piece.escapes) :
    SpellsPiece (.char c) ['\\', letter]
  | unit {a b c d : Char} {u : UInt16} (h : unit? a b c d = some u) :
    SpellsPiece (.unit u) ['\\', 'u', a, b, c, d]

inductive SpellsPieces : List Piece → List Char → Prop where
  | nil : SpellsPieces [] []
  | cons {piece : Piece} {pieces : List Piece} {text more : List Char} (h : SpellsPiece piece text)
    (hmore : SpellsPieces pieces more) : SpellsPieces (piece :: pieces) (text ++ more)

mutual

/-- The texts that write a value, from its first character to its last. -/
inductive Spells : Json → List Char → Prop where
  | null : Spells .null ['n', 'u', 'l', 'l']
  | yes : Spells (.boolean true) ['t', 'r', 'u', 'e']
  | no : Spells (.boolean false) ['f', 'a', 'l', 's', 'e']
  | number {literal : List Char} (h : Literal literal) : Spells (.number literal) literal
  | string {pieces : List Piece} {text : List Char} (h : SpellsPieces pieces text) :
    Spells (.string pieces) ('"' :: text ++ ['"'])
  | noItems {blanks : List Char} (h : Blanks blanks) : Spells (.array []) ('[' :: blanks ++ [']'])
  | array {items : List Json} {text : List Char} (h : SpellsItems items text) :
    Spells (.array items) ('[' :: text ++ [']'])
  | noMembers {blanks : List Char} (h : Blanks blanks) :
    Spells (.object []) ('\x7b' :: blanks ++ ['\x7d'])
  | object {members : List (List Piece × Json)} {text : List Char} (h : SpellsMembers members text) :
    Spells (.object members) ('\x7b' :: text ++ ['\x7d'])

inductive SpellsItems : List Json → List Char → Prop where
  | one {item : Json} {before text after : List Char} (hbefore : Blanks before)
    (h : Spells item text) (hafter : Blanks after) : SpellsItems [item] (before ++ text ++ after)
  | more {item : Json} {items : List Json} {before text after others : List Char}
    (hbefore : Blanks before) (h : Spells item text) (hafter : Blanks after)
    (hothers : SpellsItems items others) :
    SpellsItems (item :: items) (before ++ text ++ after ++ ',' :: others)

inductive SpellsMember : List Piece × Json → List Char → Prop where
  | mk {key : List Piece} {item : Json} {before name colon start text after : List Char}
    (hbefore : Blanks before) (hname : SpellsPieces key name) (hcolon : Blanks colon)
    (hstart : Blanks start) (h : Spells item text) (hafter : Blanks after) :
    SpellsMember (key, item)
      (before ++ '"' :: name ++ '"' :: colon ++ ':' :: start ++ text ++ after)

inductive SpellsMembers : List (List Piece × Json) → List Char → Prop where
  | one {member : List Piece × Json} {text : List Char} (h : SpellsMember member text) :
    SpellsMembers [member] text
  | more {member : List Piece × Json} {members : List (List Piece × Json)} {text others : List Char}
    (h : SpellsMember member text) (hothers : SpellsMembers members others) :
    SpellsMembers (member :: members) (text ++ ',' :: others)

end

/-- The texts that write a value and nothing else, with blanks around it. -/
inductive Document : Json → List Char → Prop where
  | mk {json : Json} {before text after : List Char} (hbefore : Blanks before) (h : Spells json text)
    (hafter : Blanks after) : Document json (before ++ text ++ after)

end ShardedCache.Json
