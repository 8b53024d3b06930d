import ProtocolCorpus.Text.Basic

/-!
# Characters of a text

Reading a text as UTF-8 never fails: a byte that starts no well-formed sequence
is kept as a stray byte and reading goes on behind it. So `Text.scalars` is a
second view of a text, and encoding each scalar gives the text back.
-/

namespace ProtocolCorpus

/-- What stands at one place of a text: a character, or a byte that starts no
well-formed sequence. -/
inductive Scalar
  | char (c : Char)
  | stray (b : UInt8)
  deriving DecidableEq, Repr

namespace Scalar

/-- The code point, where a stray byte counts as the replacement character. -/
def code : Scalar → Nat
  | .char c => c.toNat
  | .stray _ => 0xFFFD

def bytes : Scalar → Text
  | .char c => String.utf8EncodeChar c
  | .stray b => [b]

/-- The bytes of the character, or of the replacement character for a stray
byte. -/
def repaired : Scalar → Text
  | .char c => String.utf8EncodeChar c
  | .stray _ => [0xEF, 0xBF, 0xBD]

def isChar : Scalar → Bool
  | .char _ => true
  | .stray _ => false

/-- A byte that continues a multi-byte sequence. -/
def isTail (b : UInt8) : Bool :=
  0x80 ≤ b && b ≤ 0xBF

/-- The scalar at the front of `b :: rest`, and how many bytes of `rest` belong
to it. -/
def first (b : UInt8) (rest : Text) : Scalar × Nat :=
  if b < 0x80 then (.char (Char.ofNat b.toNat), 0)
  else
    match rest with
    | c :: more =>
      if 0xC2 ≤ b && b ≤ 0xDF && isTail c then
        (.char (Char.ofNat ((b.toNat - 0xC0) * 0x40 + (c.toNat - 0x80))), 1)
      else
        match more with
        | d :: more =>
          let code := (b.toNat - 0xE0) * 0x1000 + (c.toNat - 0x80) * 0x40 +
            (d.toNat - 0x80)
          if 0xE0 ≤ b && b ≤ 0xEF && isTail c && isTail d && 0x800 ≤ code
              && !(0xD800 ≤ code && code ≤ 0xDFFF) then
            (.char (Char.ofNat code), 2)
          else
            match more with
            | e :: _ =>
              let code := (b.toNat - 0xF0) * 0x40000 + (c.toNat - 0x80) * 0x1000
                + (d.toNat - 0x80) * 0x40 + (e.toNat - 0x80)
              if 0xF0 ≤ b && b ≤ 0xF4 && isTail c && isTail d && isTail e &&
                  0x10000 ≤ code
                  && code ≤ 0x10FFFF then
                (.char (Char.ofNat code), 3)
              else (.stray b, 0)
            | [] => (.stray b, 0)
        | [] => (.stray b, 0)
    | [] => (.stray b, 0)

end Scalar

namespace Text

/-- The scalars of a text, after skipping the first `skip` bytes. -/
def scalarsAfter : (skip : Nat) → Text → List Scalar
  | _, [] => []
  | n + 1, _ :: t => scalarsAfter n t
  | 0, b :: t => (Scalar.first b t).1 :: scalarsAfter (Scalar.first b t).2 t

def scalars (t : Text) : List Scalar :=
  scalarsAfter 0 t

def isWellFormed (t : Text) : Bool :=
  (scalars t).all Scalar.isChar

/-- The code points of a text, with the replacement character for every stray
byte. -/
def codes (t : Text) : List Nat :=
  (scalars t).map Scalar.code

def ofScalars (cs : List Scalar) : Text :=
  cs.flatMap Scalar.bytes

/-- The text with every stray byte written as the replacement character. -/
def repair (t : Text) : Text :=
  (scalars t).flatMap Scalar.repaired

/-- The UTF-8 bytes of a code point; the replacement character for a number that
is none. -/
def ofCode (n : Nat) : Text :=
  if n < 0xD800 || (0xE000 ≤ n && n ≤ 0x10FFFF) then
    String.utf8EncodeChar (Char.ofNat n)
  else [0xEF, 0xBF, 0xBD]

/-- Lower case where that is an ASCII letter: the ASCII capitals, the dotted
capital I and the Kelvin sign. Other characters are kept, which is enough to
compare with ASCII words. -/
def lowerScalar : Scalar → Text
  | .char c =>
    if c.toNat < 0x80 then [lowerByte c.toUInt8]
    else if c.toNat = 0x130 then [0x69]
    else if c.toNat = 0x212A then [0x6B]
    else String.utf8EncodeChar c
  | .stray _ => [0xEF, 0xBF, 0xBD]

/-- The text in lower case, as far as ASCII words are concerned. -/
def lower (t : Text) : Text :=
  (scalars t).flatMap lowerScalar

/-- One form for all characters that are equal up to case, as far as ASCII words
are concerned: the Kelvin sign counts as K and the long s as S. -/
def foldScalar : Scalar → Text
  | .char c =>
    if c.toNat < 0x80 then [lowerByte c.toUInt8]
    else if c.toNat = 0x212A then [0x6B]
    else if c.toNat = 0x17F then [0x73]
    else String.utf8EncodeChar c
  | .stray _ => [0xEF, 0xBF, 0xBD]

/-- `t` equals the ASCII word `word` up to case. -/
def equalsFolded (t word : Text) : Bool :=
  (scalars t).flatMap foldScalar == word.map lowerByte

end Text

end ProtocolCorpus
