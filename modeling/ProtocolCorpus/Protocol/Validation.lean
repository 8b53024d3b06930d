import ProtocolCorpus.Diagnostic.Basic
import ProtocolCorpus.Protocol.Normal

/-!
# Validation

The rules a protocol has to follow whatever other documents say: names are
unique, enumerations have entries, destructors are marked, and arguments have
only the properties their kind allows. Validation sets the results of messages
apart on its way.
-/

namespace ProtocolCorpus

/-- What validation has found so far, and whether the document failed. -/
structure Validator where
  failed : Bool := false
  diagnostics : List Diagnostic := []

namespace Validator

def reject (v : Validator) (d : Diagnostic) : Validator :=
  { failed := true, diagnostics := v.diagnostics ++ [d] }

def rejectIf (v : Validator) (broken : Bool) (d : Diagnostic) : Validator :=
  if broken then v.reject d else v

def argument (outer : Coordinates) (v : Validator) (a : Argument) : Validator :=
  let place := { outer with argument := a.name }
  let about := "argument " ++ a.name.quoted ++ " of kind " ++ a.kind.name
  let v := v.rejectIf (a.nullable && !a.kind.allowsNullable)
    (.error .nullableUnsupported a.span place (about ++ " cannot be nullable"))
  let v := v.rejectIf (!a.interface.isEmpty && !a.kind.allowsInterface)
    (.error .interfaceUnsupported a.span place
      (about ++ " cannot reference interface " ++ a.interface.quoted))
  v.rejectIf (!a.enum.isEmpty && !a.kind.allowsEnum)
    (.error .enumUnsupported a.span place
      (about ++ " cannot reference enumeration " ++ a.enum.quoted))

/-- A message, given the names of the messages of its kind before it. -/
def message (protocol interface : Text) (earlier : List Text) (v : Validator)
    (m : Message) : Validator :=
  let place : Coordinates := { protocol, interface, message := m.name }
  let about := m.kind.name ++ " " ++ m.name.quoted
  let v := v.rejectIf (earlier.contains m.name)
    (.error .duplicateMessage m.span place
    (about ++ " is declared more than once"))
  let v := v.rejectIf (m.name == "destroy" && !m.destructor)
    (.error .destructorNotMarked m.span place
      (about ++ " must be marked with type=\"destructor\""))
  let v := m.wireArgs.foldl (argument place) v
  match m.surplus with
  | some extra =>
    let first := (m.normalize.result.map Argument.name).getD []
    v.reject (.error .multipleTypedReturns extra.span
      { place with argument := extra.name }
      (about ++ " has more than one typed new_id argument (" ++
      first.quoted ++ " and "
        ++ extra.name.quoted ++ ")"))
  | none => v

/-- The messages of one kind, given the names seen before. -/
def messages (protocol interface : Text) (earlier : List Text) (v : Validator) :
    List Message → Validator
  | [] => v
  | m :: ms =>
    messages protocol interface (m.name :: earlier)
      (v.message protocol interface earlier m) ms

/-- The enumerations of an interface, given the names seen before. -/
def enums (place : Coordinates) (earlier : List Text) (v : Validator) :
    List Enumeration → Validator
  | [] => v
  | e :: es =>
    let v := v.rejectIf (earlier.contains e.name)
      (.error .duplicateEnumeration e.span place
        ("enumeration " ++ e.name.quoted ++ " is declared more than once"))
    let v := v.rejectIf e.entries.isEmpty
      (.error .emptyEnumeration e.span place
        ("enumeration " ++ e.name.quoted ++ " has no entries"))
    enums place (e.name :: earlier) v es

def interface (protocol : Text) (v : Validator) (i : Interface) : Validator :=
  let v := v.enums { protocol, interface := i.name } [] i.enums
  let v := v.messages protocol i.name [] i.requests
  v.messages protocol i.name [] i.events

/-- The interfaces of a protocol, given those seen before, and what becomes of
them: the results of messages are set apart. A repeated interface is reported
and not looked into. -/
def interfaces (protocol : Text) (earlier : List Interface) (v : Validator) :
    List Interface → Validator × List Interface
  | [] => (v, [])
  | i :: is =>
    match earlier.find? fun e => e.name == i.name with
    | some first =>
      let v := v.reject
        { Diagnostic.error .duplicateInterface i.span
        { protocol, interface := i.name }
            ("interface " ++ i.name.quoted ++ " is declared more than once")
            with
          notes := [⟨first.span, "previous declaration"⟩] }
      let (v, rest) := interfaces protocol earlier v is
      (v, i :: rest)
    | none =>
      let (v, rest) :=
        interfaces protocol (i :: earlier) (v.interface protocol i) is
      (v, i.mapMessages Message.normalize :: rest)

def protocol (v : Validator) (p : Protocol) : Validator × Protocol :=
  let v := v.rejectIf p.interfaces.isEmpty
    (.error .emptyInterfaceSet p.span { protocol := p.name }
      ("protocol " ++ p.name.quoted ++ " declares no interfaces"))
  let (v, is) := v.interfaces p.name [] p.interfaces
  (v, { p with interfaces := is })

end Validator

structure Verdict where
  valid : Bool
  diagnostics : List Diagnostic
  document : Document

namespace Document

/-- Check the rules a document has to follow by itself. A document without a
protocol is not valid. -/
def validate (d : Document) : Verdict :=
  match d.protocol with
  | none => ⟨false, [], d⟩
  | some p =>
    let (v, p) := ({} : Validator).protocol p
    ⟨!v.failed, v.diagnostics, { d with protocol := some p }⟩

end Document

end ProtocolCorpus
