import ProtocolCorpus.Text.Basic

/-!
# Kinds of arguments and messages

The wire format knows eight kinds of arguments. Which other properties an
argument may have follows from its kind.
-/

namespace ProtocolCorpus

inductive ArgumentKind
  | invalid
  | int
  | uint
  | fixed
  | string
  | object
  | array
  | fd
  | newId
  deriving DecidableEq, Repr, Inhabited

namespace ArgumentKind

def declarable : List ArgumentKind :=
  [.int, .uint, .fixed, .string, .object, .array, .fd, .newId]

def name : ArgumentKind → Text
  | .invalid => "invalid"
  | .int => "int"
  | .uint => "uint"
  | .fixed => "fixed"
  | .string => "string"
  | .object => "object"
  | .array => "array"
  | .fd => "fd"
  | .newId => "new_id"

def number : ArgumentKind → Nat
  | .invalid => 0
  | .int => 1
  | .uint => 2
  | .fixed => 3
  | .string => 4
  | .object => 5
  | .array => 6
  | .fd => 7
  | .newId => 8

def ofNumber (n : Nat) : ArgumentKind :=
  (declarable.find? fun k => k.number == n).getD .invalid

def parse? (s : Text) : Option ArgumentKind :=
  declarable.find? fun k => k.name == s

def allowsNullable (k : ArgumentKind) : Bool :=
  k == .string || k == .object || k == .array

def allowsInterface (k : ArgumentKind) : Bool :=
  k == .object || k == .newId

def allowsEnum (k : ArgumentKind) : Bool :=
  k == .int || k == .uint

end ArgumentKind

inductive MessageKind
  /-- From the client to the server. -/
  | request
  /-- From the server to the client. -/
  | event
  deriving DecidableEq, Repr, Inhabited

namespace MessageKind

def name : MessageKind → Text
  | .request => "request"
  | .event => "event"

def ofNumber? : Nat → Option MessageKind
  | 1 => some .request
  | 2 => some .event
  | _ => none

def nameOfNumber (n : Nat) : Text :=
  ((ofNumber? n).map name).getD "unknown"

end MessageKind

end ProtocolCorpus
