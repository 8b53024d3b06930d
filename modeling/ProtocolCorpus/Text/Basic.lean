/-!
# Text

Documents, names and messages are byte sequences that are UTF-8 where they are
well formed; a broken file or a binary message need not be. `Text` is such a
sequence. This module holds the operations on it that look at single bytes;
reading it as characters is the business of `Text.Scalar`.
-/

namespace ProtocolCorpus

/-- A byte sequence, read as UTF-8 where that is possible. -/
abbrev Text := List UInt8

namespace Text

def ofString (s : String) : Text :=
  s.toByteArray.data.toList

instance : Coe String Text := ⟨ofString⟩

instance : HAppend String Text Text := ⟨fun s t => ofString s ++ t⟩

instance : HAppend Text String Text := ⟨fun t s => t ++ ofString s⟩

/-- The string a text encodes, if it is well-formed UTF-8. -/
def toString? (t : Text) : Option String :=
  String.fromUTF8? ⟨t.toArray⟩

/-- Lexicographic comparison by bytes, which for well-formed texts is the order
by code point. -/
def compare : Text → Text → Ordering
  | [], [] => .eq
  | [], _ :: _ => .lt
  | _ :: _, [] => .gt
  | a :: s, b :: t => if a < b then .lt else if b < a then .gt else compare s t

/-- `s` stands before `t` or equals it. -/
def le (s t : Text) : Bool :=
  compare s t != .gt

/-- `s` stands strictly before `t`. -/
def before (s t : Text) : Bool :=
  compare s t == .lt

/-- The rest of `t` after the leading part `p`, if `t` starts with `p`. -/
def stripFront? : (p t : Text) → Option Text
  | [], t => some t
  | _ :: _, [] => none
  | a :: p, b :: t => if a = b then stripFront? p t else none

def startsWith (t p : Text) : Bool :=
  (stripFront? p t).isSome

/-- The part of `t` before the trailing part `p`, if `t` ends with `p`. -/
def stripBack? (p t : Text) : Option Text :=
  (stripFront? p.reverse t.reverse).map List.reverse

def endsWith (t p : Text) : Bool :=
  (stripBack? p t).isSome

/-- The parts of `t` around the first `sep`, if there is one. -/
def cut (sep : UInt8) : Text → Option (Text × Text)
  | [] => none
  | b :: t =>
  if b = sep then some ([], t) else (cut sep t).map fun p => (b :: p.1, p.2)

/-- The parts of `t` around the last `sep`, if there is one. -/
def cutLast (sep : UInt8) (t : Text) : Option (Text × Text) :=
  (cut sep t.reverse).map fun p => (p.2.reverse, p.1.reverse)

/-- The pieces of `t` between the bytes `sep`: always one more than there are
separators. -/
def splitOn (sep : UInt8) : Text → List Text
  | [] => [[]]
  | b :: t =>
    match splitOn sep t with
    | [] => [[]]
    | p :: ps => if b = sep then [] :: p :: ps else (b :: p) :: ps

def join (sep : Text) : List Text → Text
  | [] => []
  | [p] => p
  | p :: q :: ps => p ++ sep ++ join sep (q :: ps)

def contains (sub : Text) : Text → Bool
  | [] => sub.isEmpty
  | b :: t => startsWith (b :: t) sub || contains sub t

def fill (n : Nat) (b : UInt8) : Text :=
  List.replicate n b

def blanks (n : Nat) : Text :=
  fill n 0x20

/-- A text of at least `width` bytes with `pad` in front. -/
def padLeft (width : Nat) (pad : UInt8) (t : Text) : Text :=
  fill (width - t.length) pad ++ t

/-- A text of at least `width` bytes with blanks behind. -/
def padRight (width : Nat) (t : Text) : Text :=
  t ++ blanks (width - t.length)

/-- The digit `0` to `9` or `a` to `f` of a value below sixteen. -/
def digit (n : Nat) : UInt8 :=
  (Nat.digitChar n).toUInt8

/-- A natural number in the given base, without leading zeros. -/
def ofNatBase (base n : Nat) : Text :=
  (Nat.toDigits base n).map Char.toUInt8

def ofNat (n : Nat) : Text :=
  ofNatBase 10 n

def ofInt : Int → Text
  | .ofNat n => ofNat n
  | .negSucc n => "-" ++ ofNat (n + 1)

/-- A number in lower-case hexadecimal of at least `width` digits. -/
def hexPadded (width n : Nat) : Text :=
  padLeft width 0x30 (ofNatBase 16 n)

def hex (t : Text) : Text :=
  t.flatMap fun b => [digit (b.toNat / 16), digit (b.toNat % 16)]

def isDigit (b : UInt8) : Bool :=
  0x30 ≤ b && b ≤ 0x39

def isLower (b : UInt8) : Bool :=
  0x61 ≤ b && b ≤ 0x7A

def isUpper (b : UInt8) : Bool :=
  0x41 ≤ b && b ≤ 0x5A

def isLetter (b : UInt8) : Bool :=
  isLower b || isUpper b

/-- The lower-case form of an ASCII letter; any other byte is kept. -/
def lowerByte (b : UInt8) : UInt8 :=
  if isUpper b then b + 0x20 else b

/-- The upper-case form of an ASCII letter; any other byte is kept. -/
def upperByte (b : UInt8) : UInt8 :=
  if isLower b then b - 0x20 else b

/-- The value of a digit in bases up to sixteen, of either case. -/
def digitValue? (b : UInt8) : Option Nat :=
  if isDigit b then some (b.toNat - 0x30)
  else if 0x61 ≤ b && b ≤ 0x66 then some (b.toNat - 0x57)
  else if 0x41 ≤ b && b ≤ 0x46 then some (b.toNat - 0x37)
  else none

/-- The number a non-empty row of digits denotes; no sign, blank or separator is
admitted. -/
def natOfDigits? (base : Nat) (t : Text) : Option Nat :=
  if t.isEmpty then none
  else t.foldl (fun acc b => do
    let n ← acc
    let d ← digitValue? b
    if d < base then some (n * base + d) else none) (some 0)

/-- A decimal integer with an optional sign that fits 64 bits. -/
def int64? (t : Text) : Option Int :=
  match t with
  | 0x2D :: ds =>
    (natOfDigits? 10 ds).bind fun n => if n ≤ 0x8000000000000000
      then some (-(n : Int)) else none
  | 0x2B :: ds =>
    (natOfDigits? 10 ds).bind fun n => if n < 0x8000000000000000
      then some (n : Int) else none
  | ds =>
    (natOfDigits? 10 ds).bind fun n => if n < 0x8000000000000000
      then some (n : Int) else none

/-- Every `a` becomes `b`. -/
def replaceByte (a b : UInt8) (t : Text) : Text :=
  t.map fun x => if x = a then b else x

/-- Every carriage return followed by a line feed becomes a line feed alone. -/
def foldReturns : Text → Text
  | 0x0D :: 0x0A :: t => 0x0A :: foldReturns t
  | b :: t => b :: foldReturns t
  | [] => []

/-- Every text once, in the order of their first places. -/
def distinct (ts : List Text) : List Text :=
  ts.foldl (fun acc t => if acc.contains t then acc else acc ++ [t]) []

def sort (ts : List Text) : List Text :=
  ts.mergeSort le

end Text

end ProtocolCorpus
