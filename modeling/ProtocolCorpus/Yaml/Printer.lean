import ProtocolCorpus.Text.Base64
import ProtocolCorpus.Text.Scalar
import ProtocolCorpus.Yaml.Scalar

/-!
# Writing YAML

Records and lists are written as indented blocks, two blanks a level. A text is
written plainly if it reads back as itself, over several lines if it has any,
and in quotes otherwise.
-/

namespace ProtocolCorpus

namespace Yaml

def isBreakCode (n : Nat) : Bool :=
  n = 0x0A || n = 0x0D || n = 0x85 || n = 0x2028 || n = 0x2029

def isBlankCode (n : Nat) : Bool :=
  n = 0x20 || n = 0x09

def isPrintable (n : Nat) : Bool :=
  n = 0x0A || (0x20 ≤ n && n ≤ 0x7E) || (0xA0 ≤ n && n ≤ 0xD7FF)
    || (0xE000 ≤ n && n ≤ 0xFFFD && n ≠ 0xFEFF)

structure Features where
  /-- It contains something that means structure. -/
  indicators : Bool := false
  breaks : Bool := false
  special : Bool := false
  tabs : Bool := false
  leadingBlank : Bool := false
  leadingBreak : Bool := false
  trailingBlank : Bool := false
  trailingBreak : Bool := false
  /-- A blank follows a line end. -/
  blankAfterBreak : Bool := false
  /-- A line end follows a blank. -/
  breakAfterBlank : Bool := false
  deriving Repr

/-- A character that means structure at the front of a text. -/
def isLeadingIndicator (n : Nat) : Bool :=
  [0x23, 0x2C, 0x5B, 0x5D, 0x7B, 0x7D, 0x26, 0x2A, 0x21, 0x7C, 0x3E, 0x27, 0x22,
    0x25, 0x40, 0x60].contains n

/-- A character that means structure where it stands, given its neighbours. -/
def isIndicator (before : Option Nat) (n : Nat) (after : Option Nat) : Bool :=
  let blankFollows := (after.map isBlankCode).getD true
  match before with
  | none =>
    isLeadingIndicator n || ((n = 0x3F || n = 0x3A || n = 0x2D) && blankFollows)
  | some b =>
    (n = 0x3A && blankFollows) ||
      (n = 0x23 && (isBlankCode b || isBreakCode b || b = 0))

/-- Add what one character shows, given its neighbours. -/
def Features.see (f : Features) (before : Option Nat) (n : Nat)
    (after : Option Nat) : Features :=
  let isSpace := n = 0x20
  { indicators := f.indicators || isIndicator before n after
    breaks := f.breaks || isBreakCode n
    special := f.special || (n ≠ 0x09 && !isPrintable n)
    tabs := f.tabs || n = 0x09
    leadingBlank := f.leadingBlank || (isSpace && before.isNone)
    leadingBreak := f.leadingBreak || (isBreakCode n && before.isNone)
    trailingBlank := f.trailingBlank || (isSpace && after.isNone)
    trailingBreak := f.trailingBreak || (isBreakCode n && after.isNone)
    blankAfterBreak := f.blankAfterBreak ||
      (isSpace && (before.map isBreakCode).getD false)
    breakAfterBlank := f.breakAfterBlank ||
      (isBreakCode n && before == some 0x20) }

def Features.ofCodes (before : Option Nat) : List Nat → Features → Features
  | [], f => f
  | n :: ns, f => ofCodes (some n) ns (f.see before n ns.head?)

/-- What matters for the style of a text; three dashes or points at its front
mean a document. -/
def features (t : Text) : Features :=
  let f := Features.ofCodes none (Text.codes t) {}
  { f with
    indicators := f.indicators || Text.startsWith t "---" ||
      Text.startsWith t "..." }

inductive Style
  | plain
  | singleQuoted
  | doubleQuoted
  | literal
  deriving DecidableEq, Repr

def Features.allowSingle (f : Features) : Bool :=
  !(f.blankAfterBreak || f.breakAfterBlank || f.tabs || f.special)

def Features.allowPlain (f : Features) : Bool :=
  f.allowSingle &&
    !(f.leadingBlank || f.leadingBreak || f.trailingBlank ||
    f.trailingBreak || f.breaks
    || f.indicators)

def Features.allowLiteral (f : Features) : Bool :=
  !(f.trailingBlank || f.breakAfterBlank || f.special)

/-- The style of a text; `asText` says that a plain scalar would read as a text.
-/
def style (asText : Bool) (t : Text) : Style :=
  let f := features t
  if List.contains t 0x0A then
    (if f.allowLiteral then .literal else .doubleQuoted)
  else if !asText then .doubleQuoted
  else if t.isEmpty || f.allowPlain then .plain
  else if f.allowSingle then .singleQuoted
  else .doubleQuoted

def upperHex (width n : Nat) : Text :=
  (Text.hexPadded width n).map Text.upperByte

def escape (s : Scalar) : Text :=
  let n := s.code
  if isPrintable n && !isBreakCode n && n ≠ 0x22 && n ≠ 0x5C then s.repaired
  else
    match n with
    | 0x00 => "\\0"
    | 0x07 => "\\a"
    | 0x08 => "\\b"
    | 0x09 => "\\t"
    | 0x0A => "\\n"
    | 0x0B => "\\v"
    | 0x0C => "\\f"
    | 0x0D => "\\r"
    | 0x1B => "\\e"
    | 0x22 => "\\\""
    | 0x5C => "\\\\"
    | 0x85 => "\\N"
    | 0x2028 => "\\L"
    | 0x2029 => "\\P"
    | _ =>
      if n ≤ 0xFF then "\\x" ++ upperHex 2 n
      else if n ≤ 0xFFFF then "\\u" ++ upperHex 4 n
      else "\\U" ++ upperHex 8 n

/-- Characters on indented lines: every character behind a line end is preceded
by blanks. -/
def indentLines (indent : Nat) (show_ : Scalar → Text)
    (atStart : Bool) : List Scalar → Text
  | [] => []
  | s :: rest =>
    if isBreakCode s.code then s.repaired ++ indentLines indent show_ true rest
    else (if atStart then Text.blanks indent else []) ++ show_ s ++
      indentLines indent show_ false rest

/-- The marks behind the bar: the indentation if the text starts with a blank or
a line end, and what becomes of the line ends at its end. -/
def literalMarks (t : Text) : Text :=
  let cs := (Text.scalars t).map Scalar.code
  let lead : Text :=
    if (cs.head?.map fun n => n = 0x20 || isBreakCode n).getD false then "2"
    else ""
  let tail : Text := match cs.reverse with
    | a :: b :: _ =>
      if !isBreakCode a then "-" else if isBreakCode b then "+" else ""
    | [a] => if isBreakCode a then "+" else "-"
    | [] => "-"
  lead ++ tail

/-- A text as lines; a line end at its front takes the place of the one behind
the marks. -/
def literal (indent : Nat) (t : Text) : Text :=
  let cs := Text.scalars t
  let opening : Text := if (cs.head?.map fun s => isBreakCode s.code).getD false
    then "" else "\n"
  "|" ++ literalMarks t ++ opening ++ indentLines indent Scalar.repaired true cs

/-- A text in single quotes, where a quote is written twice. -/
def singleQuoted (indent : Nat) (t : Text) : Text :=
  "'" ++ indentLines indent (fun s => if s.code = 0x27 then "''"
    else s.repaired) false (Text.scalars t)
    ++ "'"

def doubleQuoted (t : Text) : Text :=
  "\"" ++ (Text.scalars t).flatMap escape ++ "\""

/-- A text in a style, with the lines behind the first indented. -/
def styled (indent : Nat) (t : Text) : Style → Text
  | .plain => t
  | .singleQuoted => singleQuoted indent t
  | .doubleQuoted => doubleQuoted t
  | .literal => literal indent t

/-- A text; one that is not well formed is written as its bytes. -/
def scalar (indent : Nat) (t : Text) : Text :=
  if Text.isWellFormed t then styled indent t (style (readsAsText t) t)
  else
    let encoded := Base64.lines t
    "!!binary " ++ styled indent encoded (style true encoded)

def endLine (t : Text) : Text :=
  match ((Text.scalars t).getLast?).map Scalar.code with
  | some n => if isBreakCode n then t else t ++ "\n"
  | none => "\n"

mutual

/-- What follows a key at an indentation, up to the end of the last line. -/
def renderValue (indent : Nat) : Tree → Text
  | .absent => " []\n"
  | .bool true => " true\n"
  | .bool false => " false\n"
  | .int n => " " ++ Text.ofInt n ++ "\n"
  | .text t => endLine (" " ++ scalar (indent + 2) t)
  | .list [] => " []\n"
  | .list (t :: ts) => "\n" ++ renderItems (indent + 2) (t :: ts)
  | .record [] => " \x7b\x7d\n"
  | .record (m :: ms) => "\n" ++ renderMembers (indent + 2) (m :: ms)

/-- What follows the dash of an item at an indentation. -/
def renderItem (indent : Nat) : Tree → Text
  | .absent => " []\n"
  | .bool true => " true\n"
  | .bool false => " false\n"
  | .int n => " " ++ Text.ofInt n ++ "\n"
  | .text t => endLine (" " ++ scalar (indent + 2) t)
  | .list [] => " []\n"
  | .list (t :: ts) =>
  " -" ++ renderItem (indent + 2) t ++ renderItems (indent + 2) ts
  | .record [] => " \x7b\x7d\n"
  | .record ((k, t) :: ms) =>
    " " ++ scalar (indent + 2) k ++ ":" ++ renderValue (indent + 2) t ++
      renderMembers (indent + 2) ms

def renderItems (indent : Nat) : List Tree → Text
  | [] => []
  | t :: ts =>
  Text.blanks indent ++ "-" ++ renderItem indent t ++ renderItems indent ts

def renderMembers (indent : Nat) : List (Text × Tree) → Text
  | [] => []
  | (k, t) :: ms =>
    Text.blanks indent ++ scalar indent k ++ ":" ++ renderValue indent t ++
      renderMembers indent ms

end

def document : Tree → Text
  | .record (m :: ms) => renderMembers 0 (m :: ms)
  | .list (t :: ts) => renderItems 0 (t :: ts)
  | t => (renderValue 0 t).drop 1

end Yaml

end ProtocolCorpus
