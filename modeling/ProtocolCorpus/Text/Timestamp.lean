import ProtocolCorpus.Text.Basic

/-!
# Dates and times in a text

The parts of a point in time, each dropped from the front of a text. Numbers
have two digits; where that is not demanded, one is enough. Beside that,
`Timestamp.ofMicroseconds` writes a point in time.
-/

namespace ProtocolCorpus

namespace Timestamp

def number? (two : Bool) : Text → Option (Nat × Text)
  | a :: b :: t =>
    if !Text.isDigit a then none
    else if Text.isDigit b then
      some ((a.toNat - 0x30) * 10 + (b.toNat - 0x30), t)
    else if two then none
    else some (a.toNat - 0x30, b :: t)
  | [a] => if Text.isDigit a && !two then some (a.toNat - 0x30, []) else none
  | [] => none

def daysIn (year month : Nat) : Nat :=
  if month = 2 then
    if year % 4 = 0 ∧ (year % 100 ≠ 0 ∨ year % 400 = 0) then 29 else 28
  else if month = 4 ∨ month = 6 ∨ month = 9 ∨ month = 11 then 30
  else 31

/-- What follows a date with a year of four digits. -/
def dropDate? (two : Bool) (t : Text) : Option Text := do
  let digits := t.takeWhile Text.isDigit
  let year ← if digits.length = 4 then Text.natOfDigits? 10 digits else none
  let t ← Text.stripFront? "-" (t.drop 4)
  let (month, t) ← number? two t
  let t ← Text.stripFront? "-" t
  let (day, t) ← number? two t
  if 1 ≤ month ∧ month ≤ 12 ∧ 1 ≤ day ∧ day ≤ daysIn year month then some t
  else none

/-- What follows a part of a second, if there is one. -/
def dropFraction (t : Text) : Text :=
  match t with
  | b :: d :: _ =>
    if (b = 0x2E || b = 0x2C) &&
      Text.isDigit d then t.tail.dropWhile Text.isDigit else t
  | _ => t

/-- What follows a time of day. The hour may always have one digit. -/
def dropClock? (two : Bool) (t : Text) : Option Text := do
  let (hour, t) ← number? false t
  let t ← Text.stripFront? ":" t
  let (minute, t) ← number? two t
  let t ← Text.stripFront? ":" t
  let (second, t) ← number? two t
  if hour < 24 ∧ minute < 60 ∧ second < 60 then some (dropFraction t) else none

def isZone (t : Text) : Bool :=
  match t with
  | [0x5A] => true
  | [s, a, b, 0x3A, c, d] =>
    (s = 0x2B || s = 0x2D)
      && (match Text.natOfDigits? 10 [a, b], Text.natOfDigits? 10 [c, d] with
        | some h, some m => h ≤ 24 && m ≤ 60
        | _, _ => false)
  | _ => false

/-- Year, month and day of a number of days since the start of 1970. Years start
in March here, so that a leap day is the last day of its year, and 400 years
have 146097 days. -/
def civil (days : Int) : Int × Nat × Nat :=
  let shifted := days + 719468
  let era := shifted / 146097
  let day := (shifted % 146097).toNat
  let year := (day - day / 1460 + day / 36524 - day / 146096) / 365
  let dayOfYear := day - (365 * year + year / 4 - year / 100)
  let month := (5 * dayOfYear + 2) / 153
  let civilMonth := if month < 10 then month + 3 else month - 9
  (year + era * 400 + (if civilMonth ≤ 2 then 1 else 0), civilMonth,
    dayOfYear - (153 * month + 2) / 5 + 1)

def ofYear (year : Int) : Text :=
  (if year < 0 then "-" else "") ++ Text.padLeft 4 0x30 (Text.ofNat year.natAbs)

/-- The point in time so many microseconds after the start of 1970, in universal
time. -/
def ofMicroseconds (n : Int) : Text :=
  let seconds := n / 1000000
  let clock := (seconds % 86400).toNat
  let (year, month, day) := civil (seconds / 86400)
  let two (k : Nat) : Text := Text.padLeft 2 0x30 (Text.ofNat k)
  ofYear year ++ "-" ++ two month ++ "-" ++ two day ++ "T" ++
    two (clock / 3600) ++ ":"
    ++ two (clock / 60 % 60) ++ ":" ++ two (clock % 60) ++ "."
    ++ Text.padLeft 6 0x30 (Text.ofNat (n % 1000000).toNat) ++ "Z"

end Timestamp

end ProtocolCorpus
