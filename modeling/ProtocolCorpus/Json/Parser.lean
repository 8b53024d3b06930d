import ProtocolCorpus.Data.Codec
import ProtocolCorpus.Text.Scalar

/-!
# Reading JSON

One value is read from the front of a text. Keys name fields up to case, stray
bytes and halves of surrogate pairs become the replacement character, and values
nest at most ten thousand deep.
-/

namespace ProtocolCorpus

namespace Json

def isBlank (b : UInt8) : Bool :=
  b = 0x20 || b = 0x09 || b = 0x0A || b = 0x0D

def skipBlanks (t : Text) : Text :=
  t.dropWhile isBlank

/-- The number of four hexadecimal digits at the front, and what follows them.
-/
def hex4? : Text → Option (Nat × Text)
  | a :: b :: c :: d :: rest => do
    let a ← Text.digitValue? a
    let b ← Text.digitValue? b
    let c ← Text.digitValue? c
    let d ← Text.digitValue? d
    return (((a * 16 + b) * 16 + c) * 16 + d, rest)
  | _ => none

def isHighHalf (n : Nat) : Bool :=
  0xD800 ≤ n && n < 0xDC00

def isLowHalf (n : Nat) : Bool :=
  0xDC00 ≤ n && n < 0xE000

def escaped? (b : UInt8) : Option UInt8 :=
  if b = 0x22 || b = 0x5C || b = 0x2F then some b
  else if b = 0x62 then some 0x08
  else if b = 0x66 then some 0x0C
  else if b = 0x6E then some 0x0A
  else if b = 0x72 then some 0x0D
  else if b = 0x74 then some 0x09
  else none

/-- The code point of an escaped number: both halves of a pair if the second one
follows. -/
def joinHalves (n : Nat) (rest : Text) : Text × Text :=
  if isHighHalf n then
    match rest with
    | 0x5C :: 0x75 :: more =>
      match hex4? more with
      | some (m, behind) =>
        if isLowHalf m then
          (Text.ofCode (0x10000 + (n - 0xD800) * 0x400 + (m - 0xDC00)), behind)
        else (Text.ofCode n, rest)
      | none => (Text.ofCode n, rest)
    | _ => (Text.ofCode n, rest)
  else (Text.ofCode n, rest)

/-- The rest of a quoted text and what follows it; at most `fuel` characters are
read. -/
def stringRest? : (fuel : Nat) → Text → Option (Text × Text)
  | 0, _ => none
  | _ + 1, [] => none
  | fuel + 1, b :: t =>
    if b = 0x22 then some ([], t)
    else if b < 0x20 then none
    else if b = 0x5C then
      match t with
      | [] => none
      | e :: t =>
        if e = 0x75 then do
          let (n, rest) ← hex4? t
          let (bytes, rest) := joinHalves n rest
          let (s, rest) ← stringRest? fuel rest
          return (bytes ++ s, rest)
        else do
          let c ← escaped? e
          let (s, rest) ← stringRest? fuel t
          return (c :: s, rest)
    else
      let (c, n) := Scalar.first b t
      (stringRest? fuel (t.drop n)).map fun (s, rest) => (c.repaired ++ s, rest)

def string? (t : Text) : Option (Text × Text) :=
  stringRest? (t.length + 1) t

def digits? (t : Text) : Option (Text × Text) :=
  let ds := t.takeWhile Text.isDigit
  if ds.isEmpty then none else some (ds, t.drop ds.length)

/-- The whole part of a number: no zero stands in front of other digits. -/
def whole? : Text → Option (Text × Text)
  | 0x30 :: rest => some ("0", rest)
  | t => digits? t

def fraction? : Text → Option (Text × Text)
  | 0x2E :: rest => (digits? rest).map fun (ds, r) => (0x2E :: ds, r)
  | t => some ([], t)

def exponentSign : Text → Text × Text
  | 0x2B :: rest => ("+", rest)
  | 0x2D :: rest => ("-", rest)
  | t => ([], t)

def exponent? (t : Text) : Option (Text × Text) :=
  match t with
  | b :: rest =>
    if b = 0x65 || b = 0x45 then
      let (sign, rest) := exponentSign rest
      (digits? rest).map fun (ds, r) => (b :: sign ++ ds, r)
    else some ([], t)
  | [] => some ([], [])

def number? (t : Text) : Option (Text × Text) := do
  let (sign, t) := match t with
    | 0x2D :: rest => (("-" : Text), rest)
    | _ => ([], t)
  let (whole, t) ← whole? t
  let (fraction, t) ← fraction? t
  let (exponent, t) ← exponent? t
  return (sign ++ whole ++ fraction ++ exponent, t)

/-- What a number can be read as: an integer without fraction or exponent that
fits. -/
def numberViews (literal : Text) : Views := {
  int? := Text.int64? literal
  word? := (Text.natOfDigits? 10 literal).bind fun n => if n < 0x100000000
    then some (UInt32.ofNat n) else none }

/-- How deep values nest at most. -/
def maxDepth : Nat := 10000

mutual

def value? : (fuel depth : Nat) → Text → Option (Datum × Text)
  | 0, _, _ => none
  | _ + 1, _, [] => none
  | fuel + 1, depth, b :: t =>
    if b = 0x22 then (string? t).map fun (s, rest) =>
      (.scalar { text? := some s }, rest)
    else if b = 0x5B then
      if maxDepth ≤ depth then none
      else
        match skipBlanks t with
        | 0x5D :: rest => some (.list [], rest)
        | t =>
          (items? fuel (depth + 1) t).map fun (ds, rest) => (.list ds, rest)
    else if b = 0x7B then
      if maxDepth ≤ depth then none
      else
        match skipBlanks t with
        | 0x7D :: rest => some (.record [], rest)
        | t =>
          (members? fuel (depth + 1) t).map fun (ms, rest) => (.record ms, rest)
    else if b = 0x74 then (Text.stripFront? "rue" t).map fun rest =>
      (.scalar { bool? := some true }, rest)
    else if b = 0x66 then (Text.stripFront? "alse" t).map fun rest =>
      (.scalar { bool? := some false }, rest)
    else if b = 0x6E then (Text.stripFront? "ull" t).map fun rest =>
      (.null, rest)
    else (number? (b :: t)).map fun (n, rest) => (.scalar (numberViews n), rest)

def items? : (fuel depth : Nat) → Text → Option (List Datum × Text)
  | 0, _, _ => none
  | fuel + 1, depth, t => do
    let (d, rest) ← value? fuel depth t
    match skipBlanks rest with
    | 0x5D :: rest => return ([d], rest)
    | 0x2C :: rest =>
      let (ds, rest) ← items? fuel depth (skipBlanks rest)
      return (d :: ds, rest)
    | _ => none

/-- The members of a record up to its closing brace. -/
def members? : (fuel depth : Nat) → Text → Option (List (Text × Datum) × Text)
  | fuel + 1, depth, 0x22 :: t => do
    let (k, rest) ← string? t
    match skipBlanks rest with
    | 0x3A :: rest =>
      let (d, rest) ← value? fuel depth (skipBlanks rest)
      match skipBlanks rest with
      | 0x7D :: rest => return ([(k, d)], rest)
      | 0x2C :: rest =>
        let (ms, rest) ← members? fuel depth (skipBlanks rest)
        return ((k, d) :: ms, rest)
      | _ => none
    | _ => none
  | _, _, _ => none

end

/-- The first value of a text; what follows it is not looked at. -/
def parse? (t : Text) : Option Datum :=
  (value? (t.length + 1) 0 (skipBlanks t)).map Prod.fst

/-- Keys name fields up to case, and a null says nothing. -/
def conventions : Conventions where
  names field key := Text.equalsFolded key field
  nullClears := false
  nullVanishes := false
  positional := false

end Json

end ProtocolCorpus
