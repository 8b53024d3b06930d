import ProtocolCorpus.Markup.Token

/-!
# Element streams

The tokens of a text, checked for nesting and with name spaces applied: what a
reader of elements sees, each piece with the offset behind it. A stream ends
with the text or with the first fault. More than one element may stand at the
top.
-/

namespace ProtocolCorpus

namespace Markup

inductive Event
  | opened (name : Name) (attributes : List Attribute)
  | closed (name : Name)
  | text (data : Text)
  /-- A comment, declaration or instruction. -/
  | other
  deriving DecidableEq, Repr

/-- An event and the offset behind what it was read from. -/
structure Located where
  event : Event
  stop : Nat
  deriving DecidableEq, Repr

inductive Ending
  | complete
  | failed (fault : Fault) (line : Nat)
  deriving DecidableEq, Repr

structure Stream where
  events : List Located
  ending : Ending
  stop : Nat
  deriving DecidableEq, Repr

/-- Names of name spaces by the written part in front of the colon, the latest
binding first. -/
abbrev Scope := List (Text × Text)

def Scope.bind (scope : Scope) (attributes : List Attribute) : Scope :=
  attributes.foldl (fun (s : Scope) (a : Attribute) =>
    if a.name.space == "xmlns" then (a.name.localName, a.value) :: s
    else if a.name.space.isEmpty && a.name.localName == "xmlns" then
    ([], a.value) :: s
    else s) scope

/-- The name space that the part `xml` always stands for. -/
def markupSpace : Text :=
  "http://www.w3.org/XML/1998/namespace"

/-- The name space of a written name. Attributes without a colon are in none,
and declarations of name spaces keep their own. -/
def Scope.resolve (scope : Scope) (isElement : Bool) (n : Name) : Name :=
  if n.space == "xmlns" then n
  else if n.space.isEmpty && !isElement then n
  else if n.space.isEmpty && n.localName == "xmlns" then n
  else
    let space := if n.space == "xml" then markupSpace else n.space
    { n with space := (scope.lookup space).getD space }

structure OpenElement where
  name : Name
  outer : Scope

def lineAt (content rest : Text) : Nat :=
  1 + (content.take (content.length - rest.length)).count 0x0A

def Stream.cons (event : Event) (stop : Nat) (s : Stream) : Stream :=
  { s with events := ⟨event, stop⟩ :: s.events }

def Stream.fail (content : Text) (f : Failure) : Stream :=
  ⟨[], .failed f.fault (lineAt content f.rest), content.length - f.rest.length⟩

/-- Why a closing tag does not close the innermost open element. -/
def closingFault? (stack : List OpenElement) (name : Name) : Option Fault :=
  match stack with
  | [] => some (.unexpectedClosingTag name.localName)
  | top :: _ =>
    if top.name.localName ≠ name.localName then
      some (.mismatchedClosingTag top.name.localName name.localName)
    else if top.name.space ≠ name.space then
      some (.mismatchedSpace name.localName top.name.space name.space)
    else none

def streamFrom (content : Text) (stack : List OpenElement)
    (scope : Scope) : Text → Stream
  | [] =>
    if stack.isEmpty then ⟨[], .complete, content.length⟩
    else .fail content ⟨.unexpectedEnd, []⟩
  | b :: input =>
    match h : Token.scan b input with
    | .error f => .fail content f
    | .ok (token, rest) =>
      have : rest.length ≤ input.length := Token.length_scan_le h
      let stop := content.length - rest.length
      match token with
      | .other => (streamFrom content stack scope rest).cons .other stop
      | .text data =>
        (streamFrom content stack scope rest).cons (.text data) stop
      | .opening name attributes empty =>
        let inner := scope.bind attributes
        let opened := Event.opened (inner.resolve true name)
          (attributes.map fun a => { a with
              name := inner.resolve false a.name })
        if empty then
          ((streamFrom content stack scope rest).cons
            (.closed (inner.resolve true name)) stop).cons
            opened stop
        else (streamFrom content (⟨name, scope⟩ :: stack) inner rest).cons
          opened stop
      | .closing name =>
        match closingFault? stack name with
        | some f => .fail content ⟨f, rest⟩
        | none =>
          (streamFrom content stack.tail
            ((stack.head?.map OpenElement.outer).getD []) rest).cons
            (.closed (scope.resolve true name)) stop
termination_by input => input.length
decreasing_by all_goals exact Nat.lt_succ_of_le this

def stream (content : Text) : Stream :=
  streamFrom content [] [] content

end Markup

end ProtocolCorpus
