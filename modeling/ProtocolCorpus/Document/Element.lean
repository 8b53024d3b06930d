import ProtocolCorpus.Document.Attribute
import ProtocolCorpus.Protocol.Basic

/-!
# Elements of protocol documents

Which elements may stand in which, and what the tag of an element declares.
-/

namespace ProtocolCorpus

namespace Document

abbrev Found (α : Type) := α × List Diagnostic

inductive Role
  | protocol
  | copyright
  | imported
  | interface
  | message (kind : MessageKind)
  | argument
  | enumeration
  | entry
  | description
  deriving DecidableEq

namespace Role

def element : Role → Text
  | .protocol => "protocol"
  | .copyright => "copyright"
  | .imported => "import"
  | .interface => "interface"
  | .message kind => kind.name
  | .argument => "arg"
  | .enumeration => "enum"
  | .entry => "entry"
  | .description => "description"

/-- The grammar: what may stand directly inside an element. -/
def children : Role → List Role
  | .protocol => [.copyright, .imported, .interface, .description]
  | .interface =>
  [.message .request, .message .event, .enumeration, .description]
  | .message _ => [.argument, .description]
  | .enumeration => [.entry, .description]
  | _ => [.description]

def child? (k : Role) (name : Text) : Option Role :=
  k.children.find? fun j => j.element == name

/-- An import that names nothing does not stand for anything. -/
def stands (k : Role) (tag : Attributes) : Bool :=
  match k with
  | .imported => (tag.required {} "name").1.isSome
  | _ => true

end Role

def firstLine (t : Text) : Text :=
  Text.trim (t.takeWhile (· != 0x0A))

/-- The short text of an argument or entry after a description: a text it has
already stays. -/
def summarize (old summary text : Text) : Text :=
  if !old.isEmpty then old else if !summary.isEmpty then summary
  else firstLine text

def openProtocol (a : Attributes) (c : Coordinates) : Found Protocol :=
  let (name, found) := a.required c "name"
  ({ name := name.getD [], span := a.span }, found)

def openInterface (a : Attributes) (c : Coordinates) : Found Interface :=
  let (name, found) := a.required c "name"
  let inner := { c with interface := name.getD [] }
  let (given, missing) := a.required inner "version"
  let (version, refused) :=
    if given.isSome then a.version inner "version" 1 else (1, [])
  ({ name := name.getD [], version, span := a.span },
    found ++ missing ++ refused)

def openMessage (kind : MessageKind) (a : Attributes) (c : Coordinates) :
    Found Message :=
  let (name, found) := a.required c "name"
  let inner := { c with message := name.getD [] }
  let odd : List Diagnostic := match a.get? "type" with
    | some t =>
      if t == "destructor" then []
      else [.warning .unexpectedElement a.span inner
        ("unknown " ++ a.element ++ " type " ++ t.quoted)]
    | none => []
  let (since, refusedSince) := a.version inner "since" 1
  let (deprecatedSince, refusedDeprecated) :=
    a.version inner "deprecated-since" 0
  ({
      name := name.getD []
      kind
      destructor := a.get? "type" == some "destructor"
      since
      deprecatedSince
      span := a.span },
    found ++ odd ++ refusedSince ++ refusedDeprecated)

def openArgument (a : Attributes) (c : Coordinates) : Found Argument :=
  let (name, found) := a.required c "name"
  let inner := { c with argument := name.getD [] }
  let (typeName, missing) := a.required inner "type"
  let kind := typeName.bind ArgumentKind.parse?
  let unknown : List Diagnostic := match typeName, kind with
    | some t, none =>
      [.error .unknownArgumentType a.span inner
        ("unknown argument type " ++ t.quoted)]
    | _, _ => []
  let (nullable, refused) := a.boolean inner "allow-null"
  ({
      name := name.getD []
      kind := kind.getD .invalid
      nullable
      summary := a.getD "summary"
      interface := a.getD "interface"
      enum := a.getD "enum"
      span := a.span },
    found ++ missing ++ unknown ++ refused)

def openEnumeration (a : Attributes) (c : Coordinates) : Found Enumeration :=
  let (name, found) := a.required c "name"
  let (bitfield, refused) := a.boolean c "bitfield"
  let (since, refusedSince) := a.version c "since" 1
  ({ name := name.getD [], bitfield, since, span := a.span },
    found ++ refused ++ refusedSince)

def openEntry (a : Attributes) (c : Coordinates) : Found Entry :=
  let (name, found) := a.required c "name"
  let (raw, missing) := a.required c "value"
  let value := raw.bind entryValue?
  let refused : List Diagnostic := match raw, value with
    | some v, none =>
      [.error .invalidInteger a.span c
        ("entry " ++ (name.getD []).quoted ++ " has invalid value " ++
        v.quoted)]
    | _, _ => []
  let (since, refusedSince) := a.version c "since" 1
  ({ name := name.getD [], value := value.getD 0, since,
     summary := a.getD "summary" },
    found ++ missing ++ refused ++ refusedSince)

/-- What is said of an element that may not stand where it does. -/
def misplaced (parent : Role) (tag : Attributes)
    (c : Coordinates) : Diagnostic :=
  .warning .unexpectedElement tag.span c
    ("unexpected element <" ++ tag.element ++ "> inside <" ++
    parent.element ++ ">")

/-- What is said of an element that is no protocol and stands in nothing. -/
def rootless (tag : Attributes) (c : Coordinates) : Diagnostic :=
  .error .unexpectedElement tag.span c
    ("unexpected root element <" ++ tag.element ++ ">, want <protocol>")

end Document

end ProtocolCorpus
