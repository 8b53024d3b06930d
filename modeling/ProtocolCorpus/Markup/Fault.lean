import ProtocolCorpus.Text.Quoted

/-!
# Faults in markup

Everything that can be wrong with a marked-up text, and how it is said. Most
faults are faults of the grammar and are reported with the line they were found
on.
-/

namespace ProtocolCorpus

namespace Markup

inductive Fault
  /-- The text ends inside markup. -/
  | unexpectedEnd
  /-- The text ends inside a section of literal text. -/
  | unexpectedEndInSection
  | noElementName
  | noClosingName
  | noTargetName
  | noAttributeName
  /-- An attribute name that is not followed by an equals sign. -/
  | noAttributeValue
  | unquotedValue
  /-- A slash in a tag that is not followed by `>`. -/
  | unclosedEmptyTag
  /-- Something between the name of a closing tag and its end. -/
  | trailingInClosingTag (name : Text)
  | invalidName (name : Text)
  /-- An escape that stands for no character, as it was written. -/
  | invalidEntity (written : Text) (closed : Bool)
  | openBracketInValue
  | sectionEndInText
  /-- `<!-` that starts no comment. -/
  | brokenComment
  | hyphensInComment
  /-- `<![` that starts no section of literal text. -/
  | brokenSection
  | notUtf8
  | illegalCharacter (code : Nat)
  | unexpectedClosingTag (name : Text)
  | mismatchedClosingTag (opened closed : Text)
  | mismatchedSpace (name openedSpace closedSpace : Text)
  | unsupportedVersion (version : Text)
  | unsupportedEncoding (encoding : Text)
  deriving DecidableEq, Repr

namespace Fault

/-- A code point in the form `U+0041`. -/
def codePoint (n : Nat) : Text :=
  "U+" ++ (Text.hexPadded 4 n).map Text.upperByte

def message : Fault → Text
  | .unexpectedEnd => "unexpected EOF"
  | .unexpectedEndInSection => "unexpected EOF in CDATA section"
  | .noElementName => "expected element name after <"
  | .noClosingName => "expected element name after </"
  | .noTargetName => "expected target name after <?"
  | .noAttributeName => "expected attribute name in element"
  | .noAttributeValue => "attribute name without = in element"
  | .unquotedValue => "unquoted or missing attribute value in element"
  | .unclosedEmptyTag => "expected /> in element"
  | .trailingInClosingTag name =>
  "invalid characters between </" ++ name ++ " and >"
  | .invalidName name => "invalid XML name: " ++ name
  | .invalidEntity written closed =>
    "invalid character entity " ++ written ++ (if closed then ""
      else " (no semicolon)")
  | .openBracketInValue => "unescaped < inside quoted string"
  | .sectionEndInText => "unescaped ]]> not in CDATA section"
  | .brokenComment => "invalid sequence <!- not part of <!--"
  | .hyphensInComment => "invalid sequence \"--\" not allowed in comments"
  | .brokenSection => "invalid <![ sequence"
  | .notUtf8 => "invalid UTF-8"
  | .illegalCharacter code => "illegal character code " ++ codePoint code
  | .unexpectedClosingTag name => "unexpected end element </" ++ name ++ ">"
  | .mismatchedClosingTag opened closed =>
    "element <" ++ opened ++ "> closed by </" ++ closed ++ ">"
  | .mismatchedSpace name openedSpace closedSpace =>
    "element <" ++ name ++ "> in space " ++ openedSpace ++ " closed by </" ++
      name ++ "> in space "
      ++ (if closedSpace.isEmpty then ("\"\"" : Text) else closedSpace)
  | .unsupportedVersion version =>
    "xml: unsupported version " ++ version.quoted ++
      "; only version 1.0 is supported"
  | .unsupportedEncoding encoding =>
    "xml: encoding " ++ encoding.quoted ++
      " declared but Decoder.CharsetReader is nil"

def isSyntax : Fault → Bool
  | .unsupportedVersion _ | .unsupportedEncoding _ => false
  | _ => true

def describe (f : Fault) (line : Nat) : Text :=
  if f.isSyntax then "XML syntax error on line " ++ Text.ofNat line ++
    ": " ++ f.message
  else f.message

end Fault

/-- A fault and what had not been read yet when it was found. -/
structure Failure where
  fault : Fault
  rest : Text
  deriving DecidableEq, Repr

/-- What is left of a text after at least one byte was read. -/
abbrev Rest (input : Text) := { rest : Text // rest.length < input.length }

end Markup

end ProtocolCorpus
