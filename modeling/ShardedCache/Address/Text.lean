import ShardedCache.Address
import ShardedCache.Fault

namespace ShardedCache

namespace Host

/-- A group of a version 6 host: hexadecimal, without leading zeros. -/
def groupText (group : UInt16) : String :=
  String.ofList (Nat.toDigits 16 group.toNat)

def groupsText (groups : List UInt16) : String :=
  ":".intercalate (groups.map groupText)

def dottedText (a b c d : UInt8) : String :=
  ".".intercalate ([a, b, c, d].map fun octet => toString octet.toNat)

def zeroRun (groups : List UInt16) : Nat :=
  (groups.takeWhile (· = 0)).length

/-- Where the longest run of zero groups starts, and its length; of equal runs the first. -/
def longestZeroRun (groups : List UInt16) : Nat × Nat :=
  (List.range groups.length).foldl
    (fun best start =>
      let run := zeroRun (groups.drop start)
      if best.2 < run then (start, run) else best)
    (0, 0)

/-- The host without brackets and scope.  The longest run of two or more zero groups is left out;
a version 4 host that is mapped into version 6 stays dotted. -/
def text : Host → String
  | .v4 a b c d => dottedText a b c d
  | .v6 groups _ =>
    match groups.toList with
    | [0, 0, 0, 0, 0, 0xFFFF, high, low] =>
      "::ffff:" ++ dottedText (high >>> 8).toUInt8 high.toUInt8 (low >>> 8).toUInt8 low.toUInt8
    | groups =>
      let (start, run) := longestZeroRun groups
      if 1 < run then
        groupsText (groups.take start) ++ "::" ++ groupsText (groups.drop (start + run))
      else groupsText groups

end Host

namespace Address

def text (address : Address) : String :=
  match address.host with
  | .v4 .. => address.host.text ++ ":" ++ toString address.port.toNat
  | .v6 _ scope =>
    let zone := if scope = 0 then "" else "%" ++ toString scope.toNat
    "[" ++ address.host.text ++ zone ++ "]:" ++ toString address.port.toNat

def digit? (base : Nat) (c : Char) : Option Nat :=
  let value :=
    if '0' ≤ c ∧ c ≤ '9' then c.toNat - '0'.toNat
    else if 'a' ≤ c ∧ c ≤ 'f' then c.toNat - 'a'.toNat + 10
    else if 'A' ≤ c ∧ c ≤ 'F' then c.toNat - 'A'.toNat + 10
    else base
  if value < base then some value else none

def digits (base : Nat) : List Char → List Nat × List Char
  | [] => ([], [])
  | c :: cs =>
    match digit? base c with
    | none => ([], c :: cs)
    | some value =>
      let (values, rest) := digits base cs
      (value :: values, rest)

def valueOf (base : Nat) (digits : List Nat) : Nat :=
  digits.foldl (fun value digit => value * base + digit) 0

/-- A decimal number below `bound`; leading zeros are allowed. -/
def decimal (bound : Nat) (cs : List Char) : Option (Nat × List Char) :=
  match digits 10 cs with
  | ([], _) => none
  | (values, rest) =>
    if valueOf 10 values < bound then some (valueOf 10 values, rest) else none

/-- One part of a dotted host: up to three digits without a leading zero. -/
def dottedPart (cs : List Char) : Option (UInt8 × List Char) :=
  match digits 10 cs with
  | ([], _) => none
  | (0 :: _ :: _, _) => none
  | (values, rest) =>
    if values.length ≤ 3 ∧ valueOf 10 values < 256 then
      some (UInt8.ofNat (valueOf 10 values), rest)
    else none

/-- One group of a version 6 host: up to four hexadecimal digits. -/
def group (cs : List Char) : Option (UInt16 × List Char) :=
  match digits 16 cs with
  | ([], _) => none
  | (values, rest) =>
    if values.length ≤ 4 then some (UInt16.ofNat (valueOf 16 values), rest) else none

def expect (c : Char) : List Char → Option (List Char)
  | [] => none
  | d :: cs => if c = d then some cs else none

def dotted (cs : List Char) : Option ((UInt8 × UInt8 × UInt8 × UInt8) × List Char) := do
  let (a, cs) ← dottedPart cs
  let (b, cs) ← dottedPart (← expect '.' cs)
  let (c, cs) ← dottedPart (← expect '.' cs)
  let (d, cs) ← dottedPart (← expect '.' cs)
  return ((a, b, c, d), cs)

/-- Up to `room` groups with colons between them, `first` if none stands before them.  A dotted host
fills two groups and ends the list, which the second part reports. -/
def groups : (room : Nat) → (first : Bool) → List Char → List UInt16 × Bool × List Char
  | 0, _, cs => ([], false, cs)
  | room + 1, first, cs =>
    let inner := if first then some cs else expect ':' cs
    -- A dotted host needs room for its two groups.
    match (if room = 0 then none else inner.bind dotted) with
    | some ((a, b, c, d), rest) =>
      ([a.toUInt16 <<< 8 ||| b.toUInt16, c.toUInt16 <<< 8 ||| d.toUInt16], true, rest)
    | none =>
      match inner.bind group with
      | none => ([], false, cs)
      | some (g, rest) =>
        let (gs, endsDotted, rest) := groups room false rest
        (g :: gs, endsDotted, rest)

/-- The eight groups of a version 6 host.  A double colon stands for one zero group or more. -/
def sixGroups (cs : List Char) : Option (Vector UInt16 8 × List Char) := do
  let (head, endsDotted, cs) := groups 8 true cs
  if h : head.length = 8 then
    return (⟨head.toArray, by simpa using h⟩, cs)
  else if endsDotted then none
  else
    let cs ← expect ':' (← expect ':' cs)
    -- At least one group is left out.
    let (tail, _, cs) := groups (7 - head.length) true cs
    let all := head ++ List.replicate (8 - head.length - tail.length) 0 ++ tail
    if h : all.length = 8 then some (⟨all.toArray, by simpa using h⟩, cs) else none

def fourSocket (cs : List Char) : Option (Address × List Char) := do
  let ((a, b, c, d), cs) ← dotted cs
  let (port, cs) ← decimal 65536 (← expect ':' cs)
  return (⟨.v4 a b c d, UInt16.ofNat port⟩, cs)

def sixHost (cs : List Char) : Option (Host × List Char) := do
  let (groups, cs) ← sixGroups cs
  match (expect '%' cs).bind (decimal 4294967296) with
  | some (scope, rest) => return (.v6 groups (UInt32.ofNat scope), rest)
  | none => return (.v6 groups 0, cs)

def sixSocket (cs : List Char) : Option (Address × List Char) := do
  let (host, cs) ← sixHost (← expect '[' cs)
  let (port, cs) ← decimal 65536 (← expect ':' (← expect ']' cs))
  return (⟨host, UInt16.ofNat port⟩, cs)

def whole {α : Type} (read : List Char → Option (α × List Char)) (text : String) : Option α :=
  match read text.toList with
  | some (value, []) => some value
  | _ => none

/-- A host and its port, as `Address.text` writes them or with leading zeros. -/
def ofSocketText? (text : String) : Option Address :=
  (whole fourSocket text).or (whole sixSocket text)

def hostOfText? (text : String) : Option Host :=
  ((whole dotted text).map fun (a, b, c, d) => Host.v4 a b c d).or (whole sixHost text)

/-- A port in decimal, with or without a plus sign. -/
def portOfText? (text : List Char) : Option UInt16 :=
  let digits := if text.head? = some '+' then text.tail else text
  match decimal 65536 digits with
  | some (port, []) => some (UInt16.ofNat port)
  | _ => none

def splitLastColon (cs : List Char) : Option (List Char × List Char) :=
  let port := (cs.reverse.takeWhile (· ≠ ':')).reverse
  match cs.reverse.dropWhile (· ≠ ':') with
  | [] => none
  | _ :: host => some (host.reverse, port)

/-- Reads a socket address.  A text that is none as a whole is split at its last colon, and has to be
a port after it and a bare host before it. -/
def ofText (text : String) : Except AddressFault Address :=
  match ofSocketText? text with
  | some address => .ok address
  | none =>
    match splitLastColon text.toList with
    | none => .error .noPort
    | some (host, port) =>
      match portOfText? port with
      | none => .error .badPort
      | some port =>
        match hostOfText? (String.ofList host) with
        | some host => .ok { host, port }
        | none =>
          .error (.unknownHost "failed to lookup address information: Name or service not known")

end Address

end ShardedCache
