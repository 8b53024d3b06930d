import ProtocolCorpus.Data.Tree
import ProtocolCorpus.Number.Binary64
import ProtocolCorpus.Text.Scalar

/-!
# Writing JSON

Members and items stand on lines of their own with two blanks a level, or
everything stands on one line. Characters that could end a script or a line in
other languages are escaped.
-/

namespace ProtocolCorpus

namespace Json

inductive Style
  | compact
  | indented
  deriving DecidableEq, Repr

def escapeCode (n : Nat) : Text :=
  "\\u" ++ Text.hexPadded 4 n

/-- A character inside quotes. A stray byte becomes the escape of the
replacement character. -/
def escape : Scalar → Text
  | .stray _ => escapeCode 0xFFFD
  | .char c =>
    let n := c.toNat
    if n = 0x22 then "\\\""
    else if n = 0x5C then "\\\\"
    else if n = 0x08 then "\\b"
    else if n = 0x0C then "\\f"
    else if n = 0x0A then "\\n"
    else if n = 0x0D then "\\r"
    else if n = 0x09 then "\\t"
    else if n < 0x20 || n = 0x3C || n = 0x3E || n = 0x26 || n = 0x2028 ||
      n = 0x2029 then escapeCode n
    else String.utf8EncodeChar c

def quoted (t : Text) : Text :=
  "\"" ++ (Text.scalars t).flatMap escape ++ "\""

def newline (style : Style) (depth : Nat) : Text :=
  match style with
  | .compact => []
  | .indented => "\n" ++ Text.blanks (2 * depth)

def colon : Style → Text
  | .compact => ":"
  | .indented => ": "

mutual

def render (style : Style) (depth : Nat) : Tree → Text
  | .absent => "null"
  | .bool true => "true"
  | .bool false => "false"
  | .int n => Text.ofInt n
  | .text t => quoted t
  | .list [] => "[]"
  | .list (t :: ts) =>
    "[" ++ newline style (depth + 1) ++ render style (depth + 1) t ++
      renderItems style (depth + 1) ts
      ++ newline style depth ++ "]"
  | .record [] => "\x7b\x7d"
  | .record ((k, t) :: ms) =>
    "\x7b" ++ newline style (depth + 1) ++ quoted k ++ colon style ++
      render style (depth + 1) t
      ++ renderMembers style (depth + 1) ms ++ newline style depth ++ "\x7d"

def renderItems (style : Style) (depth : Nat) : List Tree → Text
  | [] => []
  | t :: ts =>
  "," ++ newline style depth ++ render style depth t ++
    renderItems style depth ts

def renderMembers (style : Style) (depth : Nat) : List (Text × Tree) → Text
  | [] => []
  | (k, t) :: ms =>
    "," ++ newline style depth ++ quoted k ++ colon style ++
      render style depth t
      ++ renderMembers style depth ms

end

def document (t : Tree) : Text :=
  render .indented 0 t ++ "\n"

def line (t : Tree) : Text :=
  render .compact 0 t

/-- A number with its fewest digits, with an exponent below a millionth and from
10^21 on. -/
def number (x : Binary64) : Text :=
  x.render ⟨-6, 21, 1⟩

/-- A record on one line, whose values are already written; what is not there is
left out. -/
def members (ms : List (Text × Option Text)) : Text :=
  "\x7b" ++ Text.join "," (ms.filterMap fun (k, v) => v.map fun v =>
    quoted k ++ ":" ++ v) ++ "\x7d"

def items (ts : List Text) : Text :=
  "[" ++ Text.join "," ts ++ "]"

end Json

end ProtocolCorpus
