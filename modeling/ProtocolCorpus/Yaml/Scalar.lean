import ProtocolCorpus.Data.Codec
import ProtocolCorpus.Number.Binary64
import ProtocolCorpus.Text.Timestamp

/-!
# What plain scalars mean

A scalar without quotes is null, a truth value, an integer, a floating-point
number, a point in time or a text. A text that would be taken for something else
is written in quotes.
-/

namespace ProtocolCorpus

namespace Yaml

inductive Meaning
  | null
  | bool (b : Bool)
  | int (n : Int)
  | float (x : Binary64)
  | infinite (negative : Bool)
  | notANumber
  | timestamp
  | text
  deriving DecidableEq, Repr

def words : List (Text × Meaning) :=
  [("true", .bool true), ("True", .bool true), ("TRUE", .bool true),
    ("false", .bool false), ("False", .bool false), ("FALSE", .bool false),
    ("", .null), ("~", .null), ("null", .null), ("Null", .null),
    ("NULL", .null),
    (".nan", .notANumber), (".NaN", .notANumber), (".NAN", .notANumber),
    (".inf", .infinite false), (".Inf", .infinite false),
    (".INF", .infinite false),
    ("+.inf", .infinite false), ("+.Inf", .infinite false),
    ("+.INF", .infinite false),
    ("-.inf", .infinite true), ("-.Inf", .infinite true),
    ("-.INF", .infinite true)]

def cutSign : Text → Bool × Text
  | 0x2B :: t => (false, t)
  | 0x2D :: t => (true, t)
  | t => (false, t)

/-- The base that a number shows by how it starts, and its digits. -/
def cutBase (t : Text) : Nat × Text :=
  match t with
  | 0x30 :: x :: rest =>
    if x = 0x78 || x = 0x58 then (16, rest)
    else if x = 0x6F || x = 0x4F then (8, rest)
    else if x = 0x62 || x = 0x42 then (2, rest)
    else (8, x :: rest)
  | _ => (10, t)

/-- The integer with a sign, if it fits 64 bits; only a number without sign may
use all of them. -/
def fit? (signed negative : Bool) (n : Nat) : Option Int :=
  if negative then (if n ≤ 0x8000000000000000 then some (-(n : Int)) else none)
  else if n < (if signed then 0x8000000000000000 else 0x10000000000000000) then
    some n
  else none

def integer? (t : Text) : Option Int :=
  let (negative, rest) := cutSign t
  let (base, digits) := cutBase rest
  let signed := rest.length < t.length
  match (Text.natOfDigits? base digits).bind (fit? signed negative) with
  | some n => some n
  | none =>
    -- A sign may also stand behind the mark of a binary or an octal number.
    match t with
    | 0x30 :: x :: rest =>
      if x = 0x62 || x = 0x6F then
        let (negative, digits) := cutSign rest
        (Text.natOfDigits? (if x = 0x62 then 2 else 8) digits).bind
          (fit? (digits.length < rest.length) negative)
      else none
    | _ => none

def cutDigits (t : Text) : Text × Text :=
  (t.takeWhile Text.isDigit, t.dropWhile Text.isDigit)

/-- The exponent of a decimal, zero if there is none. -/
def exponent? : Text → Option Int
  | [] => some 0
  | b :: t =>
    if b = 0x65 || b = 0x45 then
      let (negative, digits) := cutSign t
      (Text.natOfDigits? 10 digits).map fun n => if negative then -(n : Int)
        else n
    else none

def decimal? (t : Text) : Option Binary64 :=
  let (negative, t) := cutSign t
  let (whole, t) := cutDigits t
  let (fraction, t, point) := match t with
    | 0x2E :: t => ((cutDigits t).1, (cutDigits t).2, true)
    | _ => ([], t, false)
  if whole.isEmpty && (fraction.isEmpty || !point) then none
  else do
    let e ← exponent? t
    let n ← Text.natOfDigits? 10 (whole ++ fraction)
    Binary64.ofDecimal? negative n (e - fraction.length)

/-- A date, or a date and a time of day. -/
def isTimestamp (t : Text) : Bool :=
  match Timestamp.dropDate? false t with
  | none => false
  | some [] => true
  | some (b :: rest) =>
    match Timestamp.dropClock? false rest with
    | none => false
    | some zone =>
      if b = 0x54 || b = 0x74 then Timestamp.isZone zone
      else b = 0x20 && zone.isEmpty

def numeric (t : Text) : Meaning :=
  if isTimestamp t then .timestamp
  else
    let plain := t.filter (· != 0x5F)
    match integer? plain with
    | some n => .int n
    | none =>
      match decimal? plain with
      | some x => .float x
      | none => .text

def meaning (t : Text) : Meaning :=
  match t with
  | [] => .null
  | b :: _ =>
    let inWords := (words.lookup t).getD .text
    if Text.isDigit b || b = 0x2B || b = 0x2D then
      if inWords = .text then numeric t else inWords
    else if b = 0x2E then
      if inWords = .text then ((decimal? t).map Meaning.float).getD .text
      else inWords
    else inWords

/-- The words for truth values of older versions. -/
def oldTrue : List Text := ["y", "Y", "yes", "Yes", "YES", "on", "On", "ON"]

def oldFalse : List Text := ["n", "N", "no", "No", "NO", "off", "Off", "OFF"]

/-- A part of a number to the base sixty behind the first. -/
def isSixtieth : Text → Bool
  | [a] => Text.isDigit a
  | [a, b] => 0x30 ≤ a && a ≤ 0x35 && Text.isDigit b
  | _ => false

/-- A number to the base sixty, as in older versions. -/
def isSexagesimal (t : Text) : Bool :=
  let digitOrLine := fun b => Text.isDigit b || b == 0x5F
  let (whole, fraction) :=
    (Text.cut 0x2E (cutSign t).2).getD ((cutSign t).2, [])
  match Text.splitOn 0x3A whole with
  | head :: group :: groups =>
    (head.head?.map Text.isDigit).getD false && head.all digitOrLine
      && (group :: groups).all isSixtieth && fraction.all digitOrLine
  | _ => false

/-- The text can be written plainly as far as its meaning is concerned. -/
def readsAsText (t : Text) : Bool :=
  meaning t == .text && !isSexagesimal t && !oldTrue.contains t &&
    !oldFalse.contains t

/-- The integer of 64 bits that a floating-point number is cut to. -/
def cutToInt? (x : Binary64) : Option Int :=
  let n := x.truncated
  if x.negative then
    some (if n ≤ 0x8000000000000000 then -(n : Int) else -0x8000000000000000)
  else if n < 0x8000000000000000 then some n
  else if n = 0x8000000000000000 then some (-0x8000000000000000)
  else none

/-- What a scalar with a meaning can be read as, besides its text. -/
def Meaning.views (text : Text) : Meaning → Views
  | .null => {}
  | .bool b => { text? := some text, bool? := some b }
  | .int n => {
      text? := some text
      int? := if n < 0x8000000000000000 then some n else none
      word? := if 0 ≤ n ∧ n < 0x100000000 then some (UInt32.ofNat n.toNat)
        else none }
  | .float x => {
      text? := some text
      int? := cutToInt? x
      word? := if x.truncated < 0x100000000 ∧
        (x.negative = false ∨ x.truncated = 0) then
        some (UInt32.ofNat x.truncated) else none }
  | .infinite negative =>
    { text? := some text, int? := if negative then some (-0x8000000000000000)
        else none }
  | .notANumber => { text? := some text }
  | .timestamp => { text? := some text }
  | .text => {
      text? := some text
      bool? := if oldTrue.contains text then some true
        else if oldFalse.contains text then some false else none }

end Yaml

end ProtocolCorpus
