import ProtocolCorpus.Text.Basic

/-!
# Floating-point numbers

A finite number of the 64-bit binary format is `± m · 2^q` with `m < 2^53` and
`q ≥ -1074`. Numbers are made from fractions by rounding to the nearest, a tie
to the even mantissa, and written with the fewest digits that read back as the
same number or with a fixed number of places.
-/

namespace ProtocolCorpus

/-- The quotient rounded to the nearest integer, a tie to the even one. -/
def roundDiv (num den : Nat) : Nat :=
  let q := num / den
  let twice := 2 * (num % den)
  if twice < den then q
  else if den < twice then q + 1
  else if q % 2 = 0 then q else q + 1

/-- A finite number `± m · 2^q`. -/
structure Binary64 where
  negative : Bool := false
  mantissa : Nat := 0
  exponent : Int := 0
  deriving DecidableEq, Repr, Inhabited

namespace Binary64

def minExponent : Int := -1074

/-- `num / den` is at least `base^k`. -/
def atLeastPower (base num den : Nat) (k : Int) : Bool :=
  if 0 ≤ k then den * Nat.pow base k.toNat ≤ num
  else den ≤ num * Nat.pow base (-k).toNat

def digitCount (base n : Nat) : Nat :=
  if base = 2 then n.log2 + 1 else (Nat.toDigits base n).length

/-- The largest `k` with `base^k ≤ num / den`, for a positive fraction. -/
def floorLog (base num den : Nat) : Int :=
  let e : Int := (digitCount base num : Int) - digitCount base den
  if atLeastPower base num den e then e else e - 1

/-- The number nearest to a fraction; nothing if it is too large. -/
def ofFraction? (negative : Bool) (num den : Nat) : Option Binary64 :=
  if num = 0 then some { negative }
  else
    let q := max (floorLog 2 num den - 52) minExponent
    let m := if 0 ≤ q then roundDiv num (den <<< q.toNat)
      else roundDiv (num <<< (-q).toNat) den
    let m' := if m = 0x20000000000000 then 0x10000000000000 else m
    let q' := if m = 0x20000000000000 then q + 1 else q
    if 971 < q' then none else some ⟨negative, m', q'⟩

def fraction (x : Binary64) : Nat × Nat :=
  if 0 ≤ x.exponent then (x.mantissa <<< x.exponent.toNat, 1)
  else (x.mantissa, 1 <<< (-x.exponent).toNat)

def ofInt (n : Int) : Binary64 :=
  (ofFraction? (n < 0) n.natAbs 1).getD {}

def divNat (x : Binary64) (n : Nat) : Binary64 :=
  let (num, den) := x.fraction
  (ofFraction? x.negative num (den * n)).getD {}

def add (x y : Binary64) : Binary64 :=
  let (a, b) := x.fraction
  let (c, d) := y.fraction
  let sx : Int := if x.negative then -1 else 1
  let sy : Int := if y.negative then -1 else 1
  let n : Int := sx * (a * d : Nat) + sy * (c * b : Nat)
  if n = 0 then { negative := x.negative && y.negative }
  else (ofFraction? (n < 0) n.natAbs (b * d)).getD {}

def less (x y : Binary64) : Bool :=
  let (a, b) := x.fraction
  let (c, d) := y.fraction
  let sx : Int := if x.negative then -1 else 1
  let sy : Int := if y.negative then -1 else 1
  sx * (a * d : Nat) < sy * (c * b : Nat)

def truncated (x : Binary64) : Nat :=
  let (num, den) := x.fraction
  num / den

/-- The number in whole units and `places` decimal places, a tie to the even
digit. -/
def fixed (places : Nat) (x : Binary64) : Text :=
  let (num, den) := x.fraction
  let n := roundDiv (num * Nat.pow 10 places) den
  let digits := Text.padLeft (places + 1) 0x30 (Text.ofNat n)
  let cut := digits.length - places
  (if x.negative then "-" else "") ++ digits.take cut
    ++ (if places = 0 then [] else "." ++ digits.drop cut)

/-- The fractions that read back as a number: four times its ends and itself,
over one denominator. -/
structure Interval where
  low : Nat
  middle : Nat
  high : Nat
  denominator : Nat
  closed : Bool

def interval (x : Binary64) : Interval :=
  let m := x.mantissa
  let below := if m = 0x10000000000000 ∧ minExponent < x.exponent then 1 else 2
  let closed := m % 2 == 0
  if 0 ≤ x.exponent then
    let s := 1 <<< x.exponent.toNat
    ⟨(4 * m - below) * s, 4 * m * s, (4 * m + 2) * s, 4, closed⟩
  else ⟨4 * m - below, 4 * m, 4 * m + 2, 4 <<< (-x.exponent).toNat, closed⟩

/-- The decimal `digits · 10^k` lies in the interval. -/
def Interval.holds (i : Interval) (digits : Nat) (k : Int) : Bool :=
  let (num, den) := if 0 ≤ k then (digits * Nat.pow 10 k.toNat, 1)
    else (digits, Nat.pow 10 (-k).toNat)
  let v := num * i.denominator
  if i.closed then i.low * den ≤ v && v ≤ i.high * den
  else i.low * den < v && v < i.high * den

/-- The decimal on the grid of `10^k` that is nearest to the middle and lies in
the interval. -/
def Interval.nearest? (i : Interval) (k : Int) : Option Nat :=
  let (num, den) := if 0 ≤ k then (i.middle, i.denominator * Nat.pow 10 k.toNat)
    else (i.middle * Nat.pow 10 (-k).toNat, i.denominator)
  let first := roundDiv num den
  let other := if first = num / den then first + 1 else num / den
  if i.holds first k then some first else if i.holds other k then some other
  else none

/-- The digits and the exponent of the first grid, from `k` down, on which the
interval has a point. -/
def Interval.search (i : Interval) (k : Int) : (grids : Nat) → Nat × Int
  | 0 => (0, 0)
  | grids + 1 =>
    match i.nearest? k with
    | some n => (n, k)
    | none => search i (k - 1) grids

def trimZeros : (fuel : Nat) → Nat × Int → Nat × Int
  | 0, d => d
  | fuel + 1, (n, k) =>
  if n ≠ 0 ∧ n % 10 = 0 then trimZeros fuel (n / 10, k + 1) else (n, k)

/-- The fewest digits that read back as the number, and their exponent. -/
def shortestDigits (x : Binary64) : Nat × Int :=
  if x.mantissa = 0 then (0, 0)
  else
    let (num, den) := x.fraction
    trimZeros 20 (x.interval.search (floorLog 10 num den) 18)

/-- When a number is written with an exponent, and how. -/
structure Style where
  /-- The smallest exponent of a number written without. -/
  low : Int
  /-- The smallest exponent of a larger number written with it. -/
  high : Int
  /-- The digits an exponent has at least. -/
  width : Nat

def render (x : Binary64) (style : Style) : Text :=
  let (n, k) := x.shortestDigits
  let digits := Text.ofNat n
  let e : Int := k + digits.length - 1
  let sign : Text := if x.negative then "-" else ""
  if n = 0 then sign ++ "0"
  else if e < style.low ∨ style.high ≤ e then
    let mark : Text := if e < 0 then "e-" else "e+"
    sign ++ digits.take 1 ++ (if digits.length = 1 then []
      else "." ++ digits.drop 1) ++ mark
      ++ Text.padLeft style.width 0x30 (Text.ofNat e.natAbs)
  else if e < 0 then sign ++ "0." ++ Text.fill (-e - 1).toNat 0x30 ++ digits
  else if 0 ≤ k then sign ++ digits ++ Text.fill k.toNat 0x30
  else sign ++ digits.take (e + 1).toNat ++ "." ++ digits.drop (e + 1).toNat

/-- The number with its fewest digits, with an exponent below 10^-4 and from
10^6 on. -/
def shortest (x : Binary64) : Text :=
  x.render ⟨-4, 6, 2⟩

/-- The number nearest to `digits · 10^k`; nothing if it is too large. -/
def ofDecimal? (negative : Bool) (digits : Nat) (k : Int) : Option Binary64 :=
  let size := (Text.ofNat digits).length
  if digits = 0 then some { negative }
  else if 400 < k + size then none
  else if k + size < -400 then some { negative }
  else if 0 ≤ k then ofFraction? negative (digits * Nat.pow 10 k.toNat) 1
  else ofFraction? negative digits (Nat.pow 10 (-k).toNat)

end Binary64

end ProtocolCorpus
