import ProtocolCorpus.Text.Scalar

/-!
# Blanks

White space in the sense of the Unicode property of that name, and texts without
it at their ends.
-/

namespace ProtocolCorpus

/-- The code points with the property White_Space, as inclusive ranges. -/
def blankRanges : List (Nat × Nat) :=
  [(0x09, 0x0D), (0x20, 0x20), (0x85, 0x85), (0xA0, 0xA0), (0x1680, 0x1680),
    (0x2000, 0x200A), (0x2028, 0x2029), (0x202F, 0x202F), (0x205F, 0x205F),
    (0x3000, 0x3000)]

def isBlankCode (n : Nat) : Bool :=
  blankRanges.any fun r => r.1 ≤ n && n ≤ r.2

namespace Scalar

def isBlank (s : Scalar) : Bool :=
  isBlankCode s.code

end Scalar

namespace Text

/-- The text without white space at both ends. -/
def trim (t : Text) : Text :=
  ofScalars
    (((scalars t).dropWhile Scalar.isBlank).reverse.dropWhile
    Scalar.isBlank).reverse

/-- Nothing but white space. -/
def isBlank (t : Text) : Bool :=
  (scalars t).all Scalar.isBlank

end Text

end ProtocolCorpus
