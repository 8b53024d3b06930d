import ProtocolCorpus.Text.Basic

/-!
# Integer literals

An integer of 64 bits with an optional sign, in the base that its first
characters show. Underscores may stand between its digits.
-/

namespace ProtocolCorpus

inductive LiteralError
  | malformed
  | outOfRange
  deriving DecidableEq, Repr

namespace Literal

/-- The base that a number without sign shows, whether a mark shows it, and the
digits behind that. A zero at the front alone means base eight. -/
def cutBase : Text → Nat × Bool × Text
  | 0x30 :: mark :: digit :: rest =>
    match Text.lowerByte mark with
    | 0x62 => (2, true, digit :: rest)
    | 0x6F => (8, true, digit :: rest)
    | 0x78 => (16, true, digit :: rest)
    | _ => (8, false, 0x30 :: mark :: digit :: rest)
  | 0x30 :: rest => (8, false, 0x30 :: rest)
  | t => (10, false, t)

/-- Every underscore stands between two digits, or between what counts as a
digit in front and a digit. -/
def wellSeparated (digitBefore : Bool) : Text → Bool
  | [] => true
  | [b] => b != 0x5F
  | 0x5F :: b :: t => digitBefore && b != 0x5F && wellSeparated true t
  | _ :: b :: t => wellSeparated true (b :: t)

/-- The number that digits denote behind those that denote `n`; underscores are
passed over. The number has to stay below `2 ^ 64` all the way. -/
def magnitude (base n : Nat) : Text → Except LiteralError Nat
  | [] => .ok n
  | b :: t =>
    if b = 0x5F then magnitude base n t
    else
      match Text.digitValue? b with
      | none => .error .malformed
      | some d =>
        if base ≤ d then .error .malformed
        else if 0x10000000000000000 ≤ n * base + d then .error .outOfRange
        else magnitude base (n * base + d) t

/-- The number that a literal without sign denotes. -/
def natural (t : Text) : Except LiteralError Nat :=
  if t.isEmpty then .error .malformed
  else
    let (base, marked, digits) := cutBase t
    match magnitude base 0 digits with
    | .error e => .error e
    | .ok n => if wellSeparated marked digits then .ok n else .error .malformed

def integer (t : Text) : Except LiteralError Int :=
  match t with
  | 0x2D :: t => do
    let n ← natural t
    if n ≤ 0x8000000000000000 then .ok (-(n : Int)) else .error .outOfRange
  | 0x2B :: t => do
    let n ← natural t
    if n < 0x8000000000000000 then .ok (n : Int) else .error .outOfRange
  | t => do
    let n ← natural t
    if n < 0x8000000000000000 then .ok (n : Int) else .error .outOfRange

end Literal

end ProtocolCorpus
