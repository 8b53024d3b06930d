import ProtocolCorpus.Text.Scalar
import ProtocolCorpus.Yaml.Node

/-!
# A place in a YAML text

A cursor knows what is left to read, the column and line it stands on, and
whether nothing but blanks stands before it on its line. Gaps between tokens
hold blanks, comments and line ends.
-/

namespace ProtocolCorpus

namespace Yaml

/-- A place in a text, and the nodes with a name so far. -/
structure Cursor where
  rest : List Char
  column : Nat := 0
  line : Nat := 0
  /-- Only blanks stand before it on its line. -/
  fresh : Bool := true
  anchors : List (Text × Node) := []

namespace Cursor

def isBreak (c : Char) : Bool :=
  c = '\n' || c = '\r' || c.toNat = 0x85 || c.toNat = 0x2028 || c.toNat = 0x2029

def isBlank (c : Char) : Bool :=
  c = ' ' || c = '\t'

/-- Nothing, a blank or a line end follows. -/
def endsWord : List Char → Bool
  | [] => true
  | c :: _ => isBlank c || isBreak c

/-- The cursor behind `n` characters of its line. -/
def advance (s : Cursor) (n : Nat) : Cursor :=
  { s with rest := s.rest.drop n, column := s.column + n, fresh := false }

/-- The cursor behind `n` blanks of its line. -/
def skip (s : Cursor) (n : Nat) : Cursor :=
  { s with rest := s.rest.drop n, column := s.column + n }

/-- A line end at the cursor, as it counts in a scalar, and the cursor on the
next line. -/
def takeBreak? (s : Cursor) : Option (Char × Cursor) :=
  let next := fun (rest : List Char) =>
    { s with rest, column := 0, line := s.line + 1, fresh := true }
  match s.rest with
  | '\r' :: '\n' :: t => some ('\n', next t)
  | c :: t =>
    if c = '\n' || c = '\r' || c.toNat = 0x85 then some ('\n', next t)
    else if isBreak c then some (c, next t)
    else none
  | [] => none

/-- Skip blanks, comments and line ends. Tabs are skipped inside brackets, and
in a line where no key can start; behind a line end a key can. -/
def gap (flow : Bool) : (fuel : Nat) → (tabs inComment : Bool) → Cursor → Cursor
  | 0, _, _, s => s
  | fuel + 1, tabs, inComment, s =>
    match s.takeBreak? with
    | some (_, next) => gap flow fuel flow false next
    | none =>
      match s.rest with
      | [] => s
      | c :: _ =>
        if inComment then gap flow fuel tabs true (s.skip 1)
        else if c = ' ' || (c = '\t' && tabs) then
          gap flow fuel tabs false (s.skip 1)
        else if c = '#' then gap flow fuel tabs true (s.skip 1)
        else s

def toToken (s : Cursor) (tabs : Bool) : Cursor :=
  gap false (s.rest.length + 1) tabs false s

def toFlowToken (s : Cursor) : Cursor :=
  gap true (s.rest.length + 1) true false s

def peek? (s : Cursor) : Option Char :=
  s.rest.head?

/-- The character and the end of a word stand at the cursor. -/
def isMark (s : Cursor) (c : Char) : Bool :=
  match s.rest with
  | d :: t => c = d && endsWord t
  | [] => false

def atDocumentMark (s : Cursor) : Bool :=
  s.column = 0 &&
    match s.rest with
    | '-' :: '-' :: '-' :: t => endsWord t
    | '.' :: '.' :: '.' :: t => endsWord t
    | _ => false

def atEnd (s : Cursor) : Bool :=
  s.rest.isEmpty || s.atDocumentMark

/-- Line ends from the cursor on, with the blanks before the next word. A tab
must not stand where the indentation should. -/
def lineGap? (indent : Nat) (strict : Bool) : (fuel : Nat) → Cursor →
    Option (List Char × Cursor)
  | 0, _ => none
  | fuel + 1, s =>
    match s.takeBreak? with
    | some (c, next) =>
      (lineGap? indent strict fuel next).map fun (cs, s) => (c :: cs, s)
    | none =>
      match s.rest with
      | ' ' :: _ => lineGap? indent strict fuel (s.skip 1)
      | '\t' :: _ =>
        if strict && s.column < indent then none
        else lineGap? indent strict fuel (s.skip 1)
      | _ => some ([], s)

/-- What line ends inside a scalar become: one is a blank, of several the first
is dropped. -/
def foldBreaks : List Char → List Char
  | [] => []
  | '\n' :: [] => [' ']
  | '\n' :: cs => cs
  | cs => cs

/-- Give a node the name under which it can be repeated. -/
def define (s : Cursor) (name : Option Text) (n : Node) : Cursor :=
  match name with
  | some a => { s with anchors := (a, n) :: s.anchors }
  | none => s

end Cursor

def textOf (cs : List Char) : Text :=
  cs.flatMap String.utf8EncodeChar

end Yaml

end ProtocolCorpus
