import ProtocolCorpus.Text.Printable

/-!
# Quoted text

A text between double quotes, on one line and readable whatever it holds:
printable characters stand for themselves, everything else is written with a
backslash escape.
-/

namespace ProtocolCorpus

namespace Scalar

/-- How a scalar is written inside double quotes. -/
def quoted : Scalar → Text
  | .stray b => "\\x" ++ Text.hexPadded 2 b.toNat
  | .char c =>
    let n := c.toNat
    if n = 0x22 then "\\\""
    else if n = 0x5C then "\\\\"
    else if isPrintableCode n then String.utf8EncodeChar c
    else if n = 0x07 then "\\a"
    else if n = 0x08 then "\\b"
    else if n = 0x0C then "\\f"
    else if n = 0x0A then "\\n"
    else if n = 0x0D then "\\r"
    else if n = 0x09 then "\\t"
    else if n = 0x0B then "\\v"
    else if n < 0x20 || n = 0x7F then "\\x" ++ Text.hexPadded 2 n
    else if n < 0x10000 then "\\u" ++ Text.hexPadded 4 n
    else "\\U" ++ Text.hexPadded 8 n

end Scalar

namespace Text

/-- The text between double quotes, with escapes for what cannot be shown. -/
def quoted (t : Text) : Text :=
  "\"" ++ (scalars t).flatMap Scalar.quoted ++ "\""

end Text

end ProtocolCorpus
