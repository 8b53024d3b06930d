import ProtocolCorpus.Text.Basic

/-!
# Base 64

Bytes as letters, digits, `+` and `/`, three bytes in four characters, filled up
with `=`.
-/

namespace ProtocolCorpus

namespace Base64

def character (n : Nat) : UInt8 :=
  if n < 26 then UInt8.ofNat (0x41 + n)
  else if n < 52 then UInt8.ofNat (0x61 + (n - 26))
  else if n < 62 then UInt8.ofNat (0x30 + (n - 52))
  else if n = 62 then 0x2B
  else 0x2F

def value? (b : UInt8) : Option Nat :=
  if Text.isUpper b then some (b.toNat - 0x41)
  else if Text.isLower b then some (b.toNat - 0x61 + 26)
  else if Text.isDigit b then some (b.toNat - 0x30 + 52)
  else if b = 0x2B then some 62
  else if b = 0x2F then some 63
  else none

def encode : Text → Text
  | a :: b :: c :: rest =>
    let n := a.toNat * 65536 + b.toNat * 256 + c.toNat
    character (n / 262144) :: character (n / 4096 % 64) :: character
      (n / 64 % 64) :: character (n % 64)
      :: encode rest
  | [a, b] =>
    let n := a.toNat * 1024 + b.toNat * 4
    [character (n / 4096), character (n / 64 % 64), character (n % 64), 0x3D]
  | [a] =>
    let n := a.toNat * 16
    [character (n / 64), character (n % 64), 0x3D, 0x3D]
  | [] => []

def decode? : Text → Option Text
  | [] => some []
  | [a, b, 0x3D, 0x3D] => do
    let n := (← value? a) * 64 + (← value? b)
    return [UInt8.ofNat (n / 16)]
  | [a, b, c, 0x3D] => do
    let n := ((← value? a) * 64 + (← value? b)) * 64 + (← value? c)
    return [UInt8.ofNat (n / 1024), UInt8.ofNat (n / 4 % 256)]
  | a :: b :: c :: d :: rest => do
    let n := (((← value? a) * 64 + (← value? b)) * 64 + (← value? c)) * 64 +
      (← value? d)
    let more ← decode? rest
    return UInt8.ofNat (n / 65536) :: UInt8.ofNat (n / 256 % 256) :: UInt8.ofNat
      (n % 256) :: more
  | _ => none

/-- The characters of a text in lines of seventy, each with a line end, if there
is more than one line. -/
def lines (t : Text) : Text :=
  let all := encode t
  if all.length < 70 then all
  else
    let rec go : (count : Nat) → Text → Text
      | 0, _ => []
      | _ + 1, [] => []
      | count + 1, t => t.take 70 ++ "\n" ++ go count (t.drop 70)
    go (all.length / 70 + 1) all

end Base64

end ProtocolCorpus
