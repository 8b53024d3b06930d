import ProtocolCorpus.Data.Codec

/-!
# Reading MessagePack

One value is read from the front of a text. Integers of all widths are read as
integers of 64 bits, which wrap; a value of an extension type or a float is
known to be there and means nothing.
-/

namespace ProtocolCorpus

namespace MessagePack

/-- The number in the first `count` bytes, the highest first, and what follows
them. -/
def word? (count : Nat) (t : Text) : Option (Nat × Text) :=
  if t.length < count then none
  else some ((t.take count).foldl (fun n b => n * 256 + b.toNat) 0,
    t.drop count)

def bytes? (count : Nat) (t : Text) : Option (Text × Text) :=
  if t.length < count then none else some (t.take count, t.drop count)

/-- What an integer, given modulo 2^64, can be read as. -/
def integerViews (n : Nat) : Views := {
  int? := some (if n < 0x8000000000000000 then (n : Int)
    else (n : Int) - 0x10000000000000000)
  word? := some (UInt32.ofNat n) }

/-- A signed number of `count` bytes, modulo 2^64. -/
def extendSign (count n : Nat) : Nat :=
  if n < Nat.pow 256 count / 2 then n
  else n + 0x10000000000000000 - Nat.pow 256 count

def unsigned? (count : Nat) (t : Text) : Option (Datum × Text) :=
  (word? count t).map fun (n, rest) => (.scalar (integerViews n), rest)

def signed? (count : Nat) (t : Text) : Option (Datum × Text) :=
  (word? count t).map fun (n, rest) =>
    (.scalar (integerViews (extendSign count n)), rest)

def text? (length : Nat) (t : Text) : Option (Datum × Text) :=
  (bytes? length t).map fun (s, rest) => (.scalar { text? := some s }, rest)

/-- A text whose length stands in the first `count` bytes. -/
def sizedText? (count : Nat) (t : Text) : Option (Datum × Text) := do
  let (n, t) ← word? count t
  text? n t

/-- A value that means nothing, of a known length. -/
def skipped? (length : Nat) (t : Text) : Option (Datum × Text) :=
  (bytes? length t).map fun (_, rest) => (.scalar {}, rest)

/-- An extension value whose length stands in the first `count` bytes, before
its type. -/
def sizedExtension? (count : Nat) (t : Text) : Option (Datum × Text) := do
  let (n, t) ← word? count t
  skipped? (n + 1) t

/-- The text a key is read as; nothing is the empty text. -/
def keyText? : Datum → Option Text
  | .null => some []
  | .scalar v => v.text?
  | _ => none

/-- The record of members. One with a key that is no text can only be passed
over. -/
def recordOf (members : List (Datum × Datum)) : Datum :=
  match members.mapM fun (k, d) => (keyText? k).map fun key => (key, d) with
  | some ms => .record ms
  | none => .scalar {}

mutual

def value? : (fuel : Nat) → Text → Option (Datum × Text)
  | 0, _ => none
  | _ + 1, [] => none
  | fuel + 1, b :: t =>
    let n := b.toNat
    if n < 0x80 then some (.scalar (integerViews n), t)
    else if n < 0x90 then record? fuel (n - 0x80) t
    else if n < 0xA0 then list? fuel (n - 0x90) t
    else if n < 0xC0 then text? (n - 0xA0) t
    else if 0xE0 ≤ n then some (.scalar (integerViews (extendSign 1 n)), t)
    else if n = 0xC0 then some (.null, t)
    else if n = 0xC2 then some (.scalar { bool? := some false }, t)
    else if n = 0xC3 then some (.scalar { bool? := some true }, t)
    else if n = 0xC4 || n = 0xD9 then sizedText? 1 t
    else if n = 0xC5 || n = 0xDA then sizedText? 2 t
    else if n = 0xC6 || n = 0xDB then sizedText? 4 t
    else if n = 0xC7 then sizedExtension? 1 t
    else if n = 0xC8 then sizedExtension? 2 t
    else if n = 0xC9 then sizedExtension? 4 t
    else if n = 0xCA then skipped? 4 t
    else if n = 0xCB then skipped? 8 t
    else if n = 0xCC then unsigned? 1 t
    else if n = 0xCD then unsigned? 2 t
    else if n = 0xCE then unsigned? 4 t
    else if n = 0xCF then unsigned? 8 t
    else if n = 0xD0 then signed? 1 t
    else if n = 0xD1 then signed? 2 t
    else if n = 0xD2 then signed? 4 t
    else if n = 0xD3 then signed? 8 t
    else if n = 0xD4 then skipped? 2 t
    else if n = 0xD5 then skipped? 3 t
    else if n = 0xD6 then skipped? 5 t
    else if n = 0xD7 then skipped? 9 t
    else if n = 0xD8 then skipped? 17 t
    else if n = 0xDC then do
      let (count, t) ← word? 2 t
      list? fuel count t
    else if n = 0xDD then do
      let (count, t) ← word? 4 t
      list? fuel count t
    else if n = 0xDE then do
      let (count, t) ← word? 2 t
      record? fuel count t
    else if n = 0xDF then do
      let (count, t) ← word? 4 t
      record? fuel count t
    else none

def list? : (fuel count : Nat) → Text → Option (Datum × Text)
  | 0, _, _ => none
  | fuel + 1, count, t =>
  (items? fuel count t).map fun (ds, rest) => (.list ds, rest)

def record? : (fuel count : Nat) → Text → Option (Datum × Text)
  | 0, _, _ => none
  | fuel + 1, count, t =>
  (members? fuel count t).map fun (ms, rest) => (recordOf ms, rest)

def items? : (fuel count : Nat) → Text → Option (List Datum × Text)
  | 0, _, _ => none
  | _ + 1, 0, t => some ([], t)
  | fuel + 1, count + 1, t => do
    let (d, t) ← value? fuel t
    let (ds, t) ← items? fuel count t
    return (d :: ds, t)

/-- The next `count` members, whatever their keys. -/
def members? : (fuel count : Nat) → Text → Option (List (Datum × Datum) × Text)
  | 0, _, _ => none
  | _ + 1, 0, t => some ([], t)
  | fuel + 1, count + 1, t => do
    let (k, t) ← value? fuel t
    let (d, t) ← value? fuel t
    let (ms, t) ← members? fuel count t
    return ((k, d) :: ms, t)

end

/-- The first value of a text; what follows it is not looked at. -/
def parse? (t : Text) : Option Datum :=
  (value? (3 * t.length + 1) t).map Prod.fst

/-- Keys name fields exactly, a null resets what is there, and a record can be a
list of its values. -/
def conventions : Conventions where
  names field key := field == key
  nullClears := true
  nullVanishes := false
  positional := true

end MessagePack

end ProtocolCorpus
