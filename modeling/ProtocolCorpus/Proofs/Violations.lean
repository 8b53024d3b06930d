import ProtocolCorpus.Protocol.Validation

/-!
# What validation reports

Validation goes through a protocol with what it has found so far. What it adds
on its way does not depend on that: the findings on the parts of a protocol are
said here part by part, and a validator that comes by reports exactly these, one
after the other, and fails with the first of them.
-/

namespace ProtocolCorpus

/-! ## The findings -/

namespace Validation

def argument (outer : Coordinates) (a : Argument) : List Diagnostic :=
  let place := { outer with argument := a.name }
  let about := "argument " ++ a.name.quoted ++ " of kind " ++ a.kind.name
  (if a.nullable && !a.kind.allowsNullable then
    [.error .nullableUnsupported a.span place (about ++ " cannot be nullable")]
    else [])
  ++ (if !a.interface.isEmpty && !a.kind.allowsInterface then
    [.error .interfaceUnsupported a.span place
      (about ++ " cannot reference interface " ++ a.interface.quoted)] else [])
  ++ (if !a.enum.isEmpty && !a.kind.allowsEnum then
    [.error .enumUnsupported a.span place
      (about ++ " cannot reference enumeration " ++ a.enum.quoted)] else [])

/-- The findings on one message, given the names of the messages of its kind
before it. -/
def message (protocol interface : Text) (earlier : List Text) (m : Message) :
    List Diagnostic :=
  let place : Coordinates := { protocol, interface, message := m.name }
  let about := m.kind.name ++ " " ++ m.name.quoted
  (if earlier.contains m.name then
    [.error .duplicateMessage m.span place
    (about ++ " is declared more than once")] else [])
  ++ (if m.name == "destroy" && !m.destructor then
    [.error .destructorNotMarked m.span place
      (about ++ " must be marked with type=\"destructor\"")] else [])
  ++ m.wireArgs.flatMap (argument place)
  ++ (match m.surplus with
    | some extra =>
      let first := (m.normalize.result.map Argument.name).getD []
      [.error .multipleTypedReturns extra.span { place with
          argument := extra.name }
            (about ++ " has more than one typed new_id argument (" ++
            first.quoted ++ " and " ++ extra.name.quoted ++ ")")]
    | none => [])

def messages (protocol interface : Text) (earlier : List Text) :
    List Message → List Diagnostic
  | [] => []
  | m :: ms =>
    message protocol interface earlier m
      ++ messages protocol interface (m.name :: earlier) ms

def enums (place : Coordinates) (earlier : List Text) :
    List Enumeration → List Diagnostic
  | [] => []
  | e :: es =>
    (if earlier.contains e.name then
      [.error .duplicateEnumeration e.span place
        ("enumeration " ++ e.name.quoted ++ " is declared more than once")]
        else [])
    ++ (if e.entries.isEmpty then
      [.error .emptyEnumeration e.span place
        ("enumeration " ++ e.name.quoted ++ " has no entries")] else [])
    ++ enums place (e.name :: earlier) es

def interface (protocol : Text) (i : Interface) : List Diagnostic :=
  enums { protocol, interface := i.name } [] i.enums
    ++ messages protocol i.name [] i.requests ++
    messages protocol i.name [] i.events

/-- The findings on the interfaces of a protocol and the interfaces with results
set apart, given the interfaces seen before. -/
def interfaces (protocol : Text) (earlier : List Interface) :
    List Interface → List Diagnostic × List Interface
  | [] => ([], [])
  | i :: is =>
    match earlier.find? fun e => e.name == i.name with
    | some first =>
      let (ds, rest) := interfaces protocol earlier is
      ({ Diagnostic.error .duplicateInterface i.span
          { protocol, interface := i.name }
          ("interface " ++ i.name.quoted ++ " is declared more than once") with
        notes := [⟨first.span, "previous declaration"⟩] } :: ds, i :: rest)
    | none =>
      let (ds, rest) := interfaces protocol (i :: earlier) is
      (interface protocol i ++ ds, i.mapMessages Message.normalize :: rest)

/-- The findings on a protocol, and the protocol with results set apart. -/
def protocol (p : Protocol) : List Diagnostic × Protocol :=
  let (ds, is) := interfaces p.name [] p.interfaces
  ((if p.interfaces.isEmpty then
      [.error .emptyInterfaceSet p.span { protocol := p.name }
        ("protocol " ++ p.name.quoted ++ " declares no interfaces")] else []) ++
        ds,
    { p with interfaces := is })

end Validation

/-! ## Reporting them -/

namespace Validator

variable {v : Validator}

def rejectAll (v : Validator) (ds : List Diagnostic) : Validator :=
  ds.foldl reject v

theorem rejectAll_append (v : Validator) (ds es : List Diagnostic) :
    v.rejectAll (ds ++ es) = (v.rejectAll ds).rejectAll es :=
  List.foldl_append

/-- The document fails with the first finding. -/
theorem rejectAll_eq (v : Validator) (ds : List Diagnostic) :
    v.rejectAll ds = ⟨v.failed || !ds.isEmpty, v.diagnostics ++ ds⟩ := by
  induction ds generalizing v with
  | nil => simp [rejectAll]
  | cons d ds ih =>
    have hnext : v.rejectAll (d :: ds) = (v.reject d).rejectAll ds := rfl
    rw [hnext, ih]
    simp [reject]

theorem rejectIf_eq (v : Validator) (broken : Bool) (d : Diagnostic) :
    v.rejectIf broken d = v.rejectAll (if broken then [d] else []) := by
  cases broken with
  | true => rfl
  | false => rfl

theorem argument_eq (outer : Coordinates) (v : Validator) (a : Argument) :
    v.argument outer a = v.rejectAll (Validation.argument outer a) := by
  simp only [argument, Validation.argument, rejectIf_eq, rejectAll_append]

theorem message_eq
    (protocol interface : Text) (earlier : List Text) (v : Validator)
    (m : Message) :
    v.message protocol interface earlier m =
      v.rejectAll (Validation.message protocol interface earlier m) := by
  have hargs : ∀ (place : Coordinates) (v : Validator),
      m.wireArgs.foldl (argument place) v =
        v.rejectAll (m.wireArgs.flatMap (Validation.argument place)) := by
    intro place v
    have hstep : argument place =
        fun v a => (Validation.argument place a).foldl reject v := by
      funext v a
      exact argument_eq place v a
    rw [rejectAll, List.foldl_flatMap, hstep]
  simp only [message, Validation.message, rejectIf_eq, hargs, rejectAll_append]
  cases m.surplus with
  | none => rfl
  | some extra => rfl

theorem messages_eq
    (protocol interface : Text) (earlier : List Text) (v : Validator)
    (ms : List Message) :
    v.messages protocol interface earlier ms =
      v.rejectAll (Validation.messages protocol interface earlier ms) := by
  induction ms generalizing earlier v with
  | nil => rfl
  | cons m ms ih =>
    rw [messages, ih, message_eq, Validation.messages, rejectAll_append]

theorem enums_eq
    (place : Coordinates) (earlier : List Text) (v : Validator)
    (es : List Enumeration) :
    v.enums place earlier es =
      v.rejectAll (Validation.enums place earlier es) := by
  induction es generalizing earlier v with
  | nil => rfl
  | cons e es ih =>
    simp only [enums, ih, Validation.enums, rejectIf_eq, rejectAll_append]

theorem interface_eq (protocol : Text) (v : Validator) (i : Interface) :
    v.interface protocol i = v.rejectAll (Validation.interface protocol i) := by
  simp only [interface, Validation.interface, enums_eq, messages_eq,
    rejectAll_append]

theorem interfaces_eq
    (protocol : Text) (earlier : List Interface) (v : Validator)
    (is : List Interface) :
    v.interfaces protocol earlier is =
      (v.rejectAll (Validation.interfaces protocol earlier is).1,
        (Validation.interfaces protocol earlier is).2) := by
  induction is generalizing earlier v with
  | nil => rfl
  | cons i is ih =>
    rw [interfaces, Validation.interfaces]
    cases earlier.find? fun e => e.name == i.name with
    | some first =>
      dsimp only
      rw [ih]
      rfl
    | none =>
      dsimp only
      rw [ih, interface_eq, rejectAll_append]

theorem protocol_eq (v : Validator) (p : Protocol) :
    v.protocol p =
      (v.rejectAll (Validation.protocol p).1, (Validation.protocol p).2) := by
  simp only [protocol, Validation.protocol, rejectIf_eq, interfaces_eq,
    rejectAll_append]

end Validator

/-- The verdict on a document: it is valid if there are no findings. -/
theorem Document.validate_of_protocol
    {d : Document} {p : Protocol} (hp : d.protocol = some p) :
    d.validate =
      { valid := (Validation.protocol p).1.isEmpty
        diagnostics := (Validation.protocol p).1
        document := { d with
            protocol := some (Validation.protocol p).2 } } := by
  rw [validate, hp]
  simp [Validator.protocol_eq, Validator.rejectAll_eq]

end ProtocolCorpus
