import ProtocolCorpus.Number.Binary64
import ProtocolCorpus.Text.Timestamp
import ProtocolCorpus.Toml.Table

/-!
# Reading TOML

A document is a row of headers and of keys with values, each on a line of its
own.
-/

namespace ProtocolCorpus

namespace Toml

def isBlank (b : UInt8) : Bool :=
  b = 0x20 || b = 0x09

def skipBlanks (t : Text) : Text :=
  t.dropWhile isBlank

def isNewline (b : UInt8) : Bool :=
  b = 0x0A || b = 0x0D

def skipLine (t : Text) : Text :=
  t.dropWhile fun b => !isNewline b

/-- The text without leading blanks, line ends and comments. -/
def skipLines : (fuel : Nat) → Text → Text
  | 0, t => t
  | fuel + 1, t =>
    match t.dropWhile fun b => isBlank b || isNewline b with
    | 0x23 :: rest => skipLines fuel (skipLine rest)
    | rest => rest

def skipGap (t : Text) : Text :=
  skipLines (t.length + 1) t

/-- The bytes of a character given in hexadecimal. -/
def hexScalar? (digits : Text) : Option Text := do
  let n ← Text.natOfDigits? 16 digits
  if n < 0xD800 || (0xE000 ≤ n && n ≤ 0x10FFFF) then some (Text.ofCode n)
  else none

/-- The character of an escape behind its backslash, and what follows it. -/
def escape? : Text → Option (Text × Text)
  | [] => none
  | b :: t =>
    if b = 0x62 then some ([0x08], t)
    else if b = 0x74 then some ([0x09], t)
    else if b = 0x6E then some ([0x0A], t)
    else if b = 0x66 then some ([0x0C], t)
    else if b = 0x72 then some ([0x0D], t)
    else if b = 0x22 then some ([0x22], t)
    else if b = 0x5C then some ([0x5C], t)
    else if b = 0x75 then
      if t.length < 4 then none
      else (hexScalar? (t.take 4)).map fun c => (c, t.drop 4)
    else if b = 0x55 then
      if t.length < 8 then none
      else (hexScalar? (t.take 8)).map fun c => (c, t.drop 8)
    else none

def basicRest? : (fuel : Nat) → Text → Option (Text × Text)
  | 0, _ => none
  | _ + 1, [] => none
  | fuel + 1, b :: t =>
    if b = 0x22 then some ([], t)
    else if isNewline b then none
    else if b = 0x5C then do
      let (c, t) ← escape? t
      let (s, t) ← basicRest? fuel t
      return (c ++ s, t)
    else (basicRest? fuel t).map fun (s, t) => (b :: s, t)

def literalRest? : Text → Option (Text × Text)
  | [] => none
  | b :: t =>
    if b = 0x27 then some ([], t)
    else if isNewline b then none
    else (literalRest? t).map fun (s, t) => (b :: s, t)

/-- The end of a text over several lines: three quotes, before which two more
may stand. -/
def closing? (quote : UInt8) (t : Text) : Option (Option (Text × Text)) :=
  let run := t.takeWhile (· == quote)
  if run.length < 3 then none
  else if 5 < run.length then some none
  else some (some (run.drop 3, t.drop run.length))

/-- What follows a backslash at the end of a line: the next character that is no
blank. -/
def dropLineEnd? (t : Text) : Option Text :=
  let gap := t.takeWhile fun b => isBlank b || isNewline b
  if gap.contains 0x0A then some (t.drop gap.length) else none

def multilineRest? : (fuel : Nat) → Text → Option (Text × Text)
  | 0, _ => none
  | _ + 1, [] => none
  | fuel + 1, b :: t =>
    match closing? 0x22 (b :: t) with
    | some r => r
    | none =>
      if b = 0x5C then
        match dropLineEnd? t with
        | some rest => multilineRest? fuel rest
        | none => do
          let (c, t) ← escape? t
          let (s, t) ← multilineRest? fuel t
          return (c ++ s, t)
      else (multilineRest? fuel t).map fun (s, t) => (b :: s, t)

def multilineLiteralRest? : Text → Option (Text × Text)
  | [] => none
  | b :: t =>
    match closing? 0x27 (b :: t) with
    | some r => r
    | none => (multilineLiteralRest? t).map fun (s, t) => (b :: s, t)

def dropFirstNewline : Text → Text
  | 0x0A :: t => t
  | 0x0D :: 0x0A :: t => t
  | t => t

def string? (t : Text) : Option (Text × Text) :=
  match t with
  | 0x22 :: 0x22 :: 0x22 :: rest =>
    multilineRest? (rest.length + 1) (dropFirstNewline rest)
  | 0x27 :: 0x27 :: 0x27 :: rest =>
    multilineLiteralRest? (dropFirstNewline rest)
  | 0x22 :: rest => basicRest? (rest.length + 1) rest
  | 0x27 :: rest => literalRest? rest
  | _ => none

def name? (t : Text) : Option (Text × Text) :=
  match t with
  | 0x22 :: rest => basicRest? (rest.length + 1) rest
  | 0x27 :: rest => literalRest? rest
  | _ =>
    let name := t.takeWhile isBareByte
    if name.isEmpty then none else some (name, t.drop name.length)

/-- The names of a key with dots between them, and what follows them. -/
def key? : (fuel : Nat) → Text → Option (Key × Text)
  | 0, _ => none
  | fuel + 1, t => do
    let (name, t) ← name? (skipBlanks t)
    match skipBlanks t with
    | 0x2E :: rest =>
      let (names, rest) ← key? fuel rest
      return (name :: names, rest)
    | rest => return ([name], rest)

/-- A digit of either case in a base up to sixteen. -/
def isHexDigit (b : UInt8) : Bool :=
  (Text.digitValue? b).isSome

/-- Every underscore stands between digits. -/
def linesOk (t : Text) : Bool :=
  (t.foldl (fun (acc : Bool × Bool) b =>
    (acc.1 && (b != 0x5F || acc.2), isHexDigit b)) (true, false)).1
    && (t.getLast?.map isHexDigit).getD false

/-- A number starts with a zero that does not belong there. -/
def hasLeadingZero (t : Text) : Bool :=
  match t with
  | 0x30 :: b :: _ => !(b = 0x62 || b = 0x6F || b = 0x78)
  | s :: 0x30 :: _ :: _ => s = 0x2D || s = 0x2B
  | _ => false

def integer? (t : Text) : Option Int :=
  if !linesOk t || hasLeadingZero t then none
  else
    let plain := t.filter (· != 0x5F)
    match plain with
    | 0x30 :: 0x78 :: ds => bounded (Text.natOfDigits? 16 ds)
    | 0x30 :: 0x6F :: ds => bounded (Text.natOfDigits? 8 ds)
    | 0x30 :: 0x62 :: ds => bounded (Text.natOfDigits? 2 ds)
    | _ => Text.int64? plain
where
  /-- The number if it fits 63 bits. -/
  bounded (n : Option Nat) : Option Int :=
    n.bind fun n => if n < 0x8000000000000000 then some (n : Int) else none

/-- The pieces between points and exponent marks. -/
def floatParts (t : Text) : List Text :=
  ((t.map fun b => if b = 0x65 || b = 0x45 then 0x2E else b) |>
    Text.splitOn 0x2E).filter fun p => !p.isEmpty

/-- A digit follows every point. -/
def pointsOk : Text → Bool
  | [] => true
  | [b] => b != 0x2E
  | b :: c :: t => (b != 0x2E || Text.isDigit c) && pointsOk (c :: t)

def exponent? : Text → Option Int
  | [] => some 0
  | _ :: 0x2D :: ds => (Text.natOfDigits? 10 ds).map fun n => -(n : Int)
  | _ :: 0x2B :: ds => (Text.natOfDigits? 10 ds).map fun n => (n : Int)
  | _ :: ds => (Text.natOfDigits? 10 ds).map fun n => (n : Int)

def isFloat (t : Text) : Bool :=
  let plain := t.filter (· != 0x5F)
  let body := match plain with
    | 0x2B :: rest => rest
    | 0x2D :: rest => rest
    | _ => plain
  let mantissa := body.takeWhile fun b => b != 0x65 && b != 0x45
  let (whole, fraction) := (Text.cut 0x2E mantissa).getD (mantissa, [])
  let valid := do
    let digits ← Text.natOfDigits? 10 (whole ++ fraction)
    let e ← exponent? (body.drop mantissa.length)
    Binary64.ofDecimal? false digits (e - fraction.length)
  (floatParts t).all linesOk &&
    !((floatParts t).head?.map hasLeadingZero).getD false && pointsOk t
    && valid.isSome

/-- The token denotes a date, a time of day or both. -/
def isDatetime (t : Text) : Bool :=
  let t := t.map fun b => if b = 0x74 || b = 0x20 then 0x54
    else if b = 0x7A then 0x5A else b
  match Timestamp.dropDate? true t with
  | some [] => true
  | some (0x54 :: clock) =>
    match Timestamp.dropClock? true clock with
    | some zone => zone.isEmpty || Timestamp.isZone zone
    | none => false
  | some _ => false
  | none => Timestamp.dropClock? true t == some []

def scalarOf (isDate isDecimal : Bool)
    (token rest : Text) : Option (Value × Text) :=
  if isDate then (if isDatetime token then some (.other, rest) else none)
  else if isDecimal then (if isFloat token then some (.other, rest) else none)
  else (integer? token).map fun n => (.int n, rest)

def isFloatByte (b : UInt8) : Bool :=
  Text.isDigit b || b = 0x5F || b = 0x2E || b = 0x2D || b = 0x2B ||
    b = 0x65 || b = 0x45

def isDateByte (b : UInt8) : Bool :=
  Text.isDigit b || b = 0x2D || b = 0x3A || b = 0x54 || b = 0x74 || b = 0x20 ||
    b = 0x2E || b = 0x5A
    || b = 0x7A || b = 0x2B

def dropTrailingBlanks (t : Text) : Text :=
  (t.reverse.dropWhile (· == 0x20)).reverse

/-- The first `n` bytes and all that follow with a property, and the rest. -/
def tokenFrom (n : Nat) (p : UInt8 → Bool) (t : Text) : Text × Text :=
  let more := (t.drop n).takeWhile p
  (t.take (n + more.length), t.drop (n + more.length))

/-- A decimal number with a row of digits and underscores of length `n` at its
front. -/
def decimalFrom (n : Nat) (t : Text) : Option (Value × Text) :=
  match t.drop n with
  | b :: _ =>
    if b = 0x2E || b = 0x65 || b = 0x45 then
      let (token, rest) := tokenFrom (n + 1) isFloatByte t
      scalarOf false true token rest
    else scalarOf false false (t.take n) (t.drop n)
  | [] => scalarOf false false t []

def decimal? (t : Text) : Option (Value × Text) :=
  let lead := match t with
    | 0x2B :: _ => 1
    | 0x2D :: _ => 1
    | _ => 0
  decimalFrom
    (lead + ((t.drop lead).takeWhile fun b => Text.isDigit b ||
    b = 0x5F).length) t

def based? (p : UInt8 → Bool) (t : Text) : Option (Value × Text) :=
  match t.drop 2 with
  | b :: _ =>
    if p b then
      let (token, rest) := tokenFrom 2 (fun b => p b || b = 0x5F) t
      scalarOf false false token rest
    else none
  | [] => none

def numberOrDate? (t : Text) : Option (Value × Text) :=
  match t with
  | 0x30 :: 0x78 :: _ => based? isHexDigit t
  | 0x30 :: 0x6F :: _ => based? (fun b => 0x30 ≤ b && b ≤ 0x37) t
  | 0x30 :: 0x62 :: _ => based? (fun b => b = 0x30 || b = 0x31) t
  | _ =>
    let n := (t.takeWhile Text.isDigit).length
    match t.drop n with
    | b :: _ =>
      let isZero := t.head? == some 0x30 && n == 1
      if (b = 0x2D || b = 0x3A) && !isZero then
        let (token, rest) := tokenFrom (n + 1) isDateByte t
        scalarOf true false (dropTrailingBlanks token) rest
      else decimal? t
    | [] => decimal? t

def signed? (t : Text) : Option (Value × Text) :=
  match t with
  | _ :: rest =>
    match Text.stripFront? "inf" rest, Text.stripFront? "nan" rest with
    | some r, _ => some (.other, r)
    | _, some r => some (.other, r)
    | none, none =>
      match rest with
      | 0x30 :: b :: _ =>
        if b = 0x62 || b = 0x6F || b = 0x78 then none else decimal? t
      | b :: _ => if Text.isDigit b then decimal? t else none
      | [] => none
  | [] => none

/-- A word: a truth value or a special number. -/
def word? (t : Text) : Option (Value × Text) :=
  match Text.stripFront? "inf" t, Text.stripFront? "nan" t with
  | some r, _ => some (.other, r)
  | _, some r => some (.other, r)
  | none, none =>
    let letters := t.takeWhile fun b => Text.isLetter b || 0x80 ≤ b
    if letters == "true" then some (.bool true, t.drop 4)
    else if letters == "false" then some (.bool false, t.drop 5)
    else none

mutual

/-- The value of a name. Tables inside a list are rows of it. -/
def value? : (fuel : Nat) → (inList : Bool) → (name : Text) → Builder → Text →
    Option (Value × Builder × Text)
  | 0, _, _, _, _ => none
  | fuel + 1, inList, name, b, t =>
    match skipBlanks t with
    | [] => none
    | c :: rest =>
      if c = 0x5B then do
        let key := b.context ++ [name]
        let (items, b, t) ← items? fuel name (b.markList key true) rest
        return (.list items, b, t)
      else if c = 0x7B then inline? fuel inList name b rest
      else if c = 0x22 || c = 0x27 then (string? (c :: rest)).map fun (s, t) =>
        (.text s, b, t)
      else if Text.isDigit c then (numberOrDate? (c :: rest)).map fun (v, t) =>
        (v, b, t)
      else if c = 0x2B || c = 0x2D then (signed? (c :: rest)).map fun (v, t) =>
        (v, b, t)
      else (word? (c :: rest)).map fun (v, t) => (v, b, t)

def items? : (fuel : Nat) → (name : Text) → Builder → Text →
    Option (List Value × Builder × Text)
  | 0, _, _, _ => none
  | fuel + 1, name, b, t =>
    match skipGap t with
    | 0x5D :: rest => some ([], b, rest)
    | t => do
      let (v, b, t) ← value? fuel true name b t
      match skipGap t with
      | 0x5D :: rest => return ([v], b, rest)
      | 0x2C :: rest =>
        let (vs, b, t) ← items? fuel name b rest
        return (v :: vs, b, t)
      | _ => none

/-- A table on one line behind its opening brace. -/
def inline? : (fuel : Nat) → (inList : Bool) → (name : Text) → Builder → Text →
    Option (Value × Builder × Text)
  | 0, _, _, _, _ => none
  | fuel + 1, inList, name, b, t => do
    let outer := b.context
    let here := outer ++ [name]
    let b ← (b.markImplicit here).enter here inList
    let (ms, b, t) ← match skipBlanks t with
      | 0x7D :: rest => some ([], b, rest)
      | t => members? fuel here b t
    return (.table ms, { b with context := outer }, t)

/-- The members of a table on one line up to its closing brace. -/
def members? : (fuel : Nat) → (here : Key) → Builder → Text →
    Option (Members × Builder × Text)
  | 0, _, _, _ => none
  | fuel + 1, here, b, t => do
    let (m, b, t) ← member? fuel b t
    let b := { b with context := here }
    match skipBlanks t with
    | 0x7D :: rest => return ([m], b, rest)
    | 0x2C :: rest =>
      let (ms, b, t) ← members? fuel here b rest
      return (m :: ms, b, t)
    | _ => none

def member? : (fuel : Nat) → Builder → Text →
    Option ((Text × Value) × Builder × Text)
  | 0, _, _ => none
  | fuel + 1, b, t => do
    let (key, t) ← key? (t.length + 1) t
    let name ← key.getLast?
    let b ← b.enterParts key
    let b := b.write (b.context ++ [name])
    match t with
    | 0x3D :: rest =>
      let (v, b, t) ← value? fuel false name b rest
      let isList := match v with
        | .list _ => true
        | _ => false
      let b ← b.define b.context name v
      return ((name, v), b.markList (b.context ++ [name]) isList, t)
    | _ => none

end

/-- What follows on the next line, if nothing but a comment stands on this one.
-/
def endLine? (t : Text) : Option Text :=
  match skipBlanks t with
  | [] => some []
  | 0x23 :: rest => some (skipLine rest)
  | b :: rest => if isNewline b then some rest else none

def header? (b : Builder) (t : Text) : Option (Builder × Text) := do
  let (row, t) := match t with
    | 0x5B :: rest => (true, rest)
    | _ => (false, t)
  let (key, t) ← key? (t.length + 1) t
  let t ← Text.stripFront? (if row then "]]" else "]") t
  let b ← b.enter key row
  return ((b.markList key false).write key, t)

def lines? : (fuel : Nat) → Builder → Text → Option Builder
  | 0, _, _ => none
  | fuel + 1, b, t =>
    match skipGap t with
    | [] => some b
    | 0x5B :: rest => do
      let (b, t) ← header? b rest
      lines? fuel b (← endLine? t)
    | t => do
      let outer := b.context
      let (_, b, t) ← member? fuel b t
      lines? fuel { b with context := outer } (← endLine? t)

/-- A character that may stand in a document, given what follows it. -/
def isAllowed (s : Scalar) (next : Option Scalar) : Bool :=
  let n := s.code
  if n = 0xFFFD then false
  else if n = 0x0D then next == some (.char '\n')
  else n = 0x09 || n = 0x0A || (0x20 ≤ n && n ≠ 0x7F)

def allAllowed : List Scalar → Bool
  | [] => true
  | s :: rest => isAllowed s rest.head? && allAllowed rest

def dropMark : Text → Text
  | 0xEF :: 0xBB :: 0xBF :: t => t
  | 0xFF :: 0xFE :: t => t
  | 0xFE :: 0xFF :: t => t
  | t => t

/-- The table of a document and all its keys, or nothing if it is malformed. -/
def parse? (t : Text) : Option Builder :=
  let t := dropMark t
  if allAllowed (Text.scalars t) then lines? (4 * t.length + 8) {} t else none

end Toml

end ProtocolCorpus
