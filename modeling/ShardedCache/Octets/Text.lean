import ShardedCache.Octets

namespace ShardedCache.Octets

def replacement : Char := '\uFFFD'

def isContinuation (b : UInt8) : Bool :=
  0x80 ≤ b && b ≤ 0xBF

/-- Whether `b` may follow the first octet of a character of three octets or four. -/
def mayFollow (first b : UInt8) : Bool :=
  let low : UInt8 := if first = 0xE0 then 0xA0 else if first = 0xF0 then 0x90 else 0x80
  let high : UInt8 := if first = 0xED then 0x9F else if first = 0xF4 then 0x8F else 0xBF
  low ≤ b && b ≤ high

/-- How many octets have to follow the first one of a character, none if it can be no first one. -/
def followers? (first : UInt8) : Option Nat :=
  if first < 0x80 then some 0
  else if 0xC2 ≤ first && first ≤ 0xDF then some 1
  else if 0xE0 ≤ first && first ≤ 0xEF then some 2
  else if 0xF0 ≤ first && first ≤ 0xF4 then some 3
  else none

/-- How many of the octets can belong to a character of which `needed` follow the first one. -/
def following (first : UInt8) (needed : Nat) (rest : Octets) : Nat :=
  match rest.take needed with
  | [] => 0
  | b :: more => if mayFollow first b then 1 + (more.takeWhile isContinuation).length else 0

/-- The character that begins with `first`, or its replacement, and how many of the octets after it
belong to it. -/
def character (first : UInt8) (rest : Octets) : Char × Nat :=
  match followers? first with
  | none => (replacement, 0)
  | some needed =>
    let found := following first needed rest
    if found = needed then
      let lead := if needed = 0 then first.toNat else first.toNat % (64 >>> needed)
      let code := (rest.take needed).foldl (fun code b => code * 64 + b.toNat % 64) lead
      (Char.ofNat code, needed)
    else (replacement, found)

def lossyChars : Octets → List Char
  | [] => []
  | first :: rest =>
    let (c, taken) := character first rest
    c :: lossyChars (rest.drop taken)
termination_by bs => bs.length
decreasing_by simp only [List.length_drop, List.length_cons]; omega

def lossyText (bs : Octets) : String :=
  String.ofList (lossyChars bs)

end ShardedCache.Octets
