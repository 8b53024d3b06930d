import ProtocolCorpus.Data.Tree

/-!
# Writing MessagePack

Every value is written in the shortest form the format has for it.
-/

namespace ProtocolCorpus

namespace MessagePack

/-- The last `count` bytes of a number, the highest first. -/
def bigEndian : (count : Nat) → Nat → Text
  | 0, _ => []
  | count + 1, n =>
  UInt8.ofNat (n / Nat.pow 256 count) :: bigEndian count (n % Nat.pow 256 count)

/-- A number in the first width that has room for it, behind the mark of that
width. The last width has to do. -/
def sized (n : Nat) : List (UInt8 × Nat) → Text
  | [] => []
  | [(mark, count)] => mark :: bigEndian count n
  | (mark, count) :: wider =>
    if n < Nat.pow 256 count then mark :: bigEndian count n else sized n wider

/-- A number in one byte if there is room behind `base`, or in one of the
widths. -/
def head (base room : Nat) (widths : List (UInt8 × Nat)) (n : Nat) : Text :=
  if n < room then [UInt8.ofNat (base + n)] else sized n widths

/-- A natural number below 2^64. -/
def natural : Nat → Text :=
  head 0 0x80 [(0xCC, 1), (0xCD, 2), (0xCE, 4), (0xCF, 8)]

/-- The integer `-n - 1`, written by its complement. -/
def negative (n : Nat) : Text :=
  if n < 0x20 then [UInt8.ofNat (0x100 - 1 - n)]
  else if n < 0x80 then 0xD0 :: bigEndian 1 (0x100 - 1 - n)
  else if n < 0x8000 then 0xD1 :: bigEndian 2 (0x10000 - 1 - n)
  else if n < 0x80000000 then 0xD2 :: bigEndian 4 (0x100000000 - 1 - n)
  else 0xD3 :: bigEndian 8 (0x10000000000000000 - 1 - n)

def integer : Int → Text
  | .ofNat n => natural n
  | .negSucc n => negative n

def textHead : Nat → Text :=
  head 0xA0 32 [(0xD9, 1), (0xDA, 2), (0xDB, 4)]

def listHead : Nat → Text :=
  head 0x90 16 [(0xDC, 2), (0xDD, 4)]

def recordHead : Nat → Text :=
  head 0x80 16 [(0xDE, 2), (0xDF, 4)]

def text (t : Text) : Text :=
  textHead t.length ++ t

mutual

def render : Tree → Text
  | .absent => [0xC0]
  | .bool false => [0xC2]
  | .bool true => [0xC3]
  | .int n => integer n
  | .text t => text t
  | .list ts => listHead ts.length ++ renderItems ts
  | .record ms => recordHead ms.length ++ renderMembers ms

def renderItems : List Tree → Text
  | [] => []
  | t :: ts => render t ++ renderItems ts

def renderMembers : List (Text × Tree) → Text
  | [] => []
  | (k, t) :: ms => text k ++ render t ++ renderMembers ms

end

end MessagePack

end ProtocolCorpus
