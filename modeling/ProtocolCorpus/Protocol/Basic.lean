import ProtocolCorpus.Protocol.Kind
import ProtocolCorpus.Source.Span

/-!
# Protocols

A document declares one protocol: interfaces with their requests, events and
enumerations. References between interfaces are first kept as written;
resolution adds what they mean, and layout adds where the types of a message
stand in the type table of its protocol.
-/

namespace ProtocolCorpus

/-- The name without its first underscore segment, if something is left then. -/
def shortName (name : Text) : Text :=
  match Text.cut 0x5F name with
  | some (_, rest) => if rest.isEmpty then name else rest
  | none => name

/-- What a reference to an interface means: a symbol, the alias of the document
that declares it (empty for the document itself), and the full name of the
interface. -/
structure Reference where
  qualifier : Text := []
  name : Text := []
  target : Text := []
  deriving DecidableEq, Repr, Inhabited

namespace Reference

def isLocal (r : Reference) : Bool :=
  r.qualifier.isEmpty

def describe (r : Reference) : Text :=
  if r.qualifier.isEmpty then r.name else r.qualifier ++ "." ++ r.name

end Reference

def describeSlot : Option Reference → Text
  | some r => r.describe
  | none => "<null>"

structure EnumReference extends Reference where
  bitfield : Bool := false
  /-- The enumeration was found; otherwise only its owner is known. -/
  found : Bool := false
  deriving DecidableEq, Repr, Inhabited

structure Description where
  summary : Text := []
  text : Text := []
  deriving DecidableEq, Repr, Inhabited

structure Argument where
  name : Text := []
  kind : ArgumentKind := .invalid
  nullable : Bool := false
  summary : Text := []
  interface : Text := []
  enum : Text := []
  span : Span := {}
  resolvedInterface : Option Reference := none
  resolvedEnum : Option EnumReference := none
  deriving DecidableEq, Repr, Inhabited

namespace Argument

/-- It creates an object of a declared interface. -/
def isTypedNewId (a : Argument) : Bool :=
  a.kind == .newId && !a.interface.isEmpty

/-- It creates an object whose interface is only known when the message is sent.
-/
def isGenericNewId (a : Argument) : Bool :=
  a.kind == .newId && a.interface.isEmpty

end Argument

/-- Where the types of a message stand. -/
structure Placement where
  /-- No slot of the message has a type. -/
  allNull : Bool := false
  /-- The index of its first slot in the type table. -/
  typeIndex : Nat := 0
  slots : List (Option Reference) := []
  deriving DecidableEq, Repr, Inhabited

structure Message where
  name : Text := []
  kind : MessageKind := .request
  destructor : Bool := false
  since : Int := 0
  deprecatedSince : Int := 0
  description : Description := {}
  args : List Argument := []
  /-- The argument that creates an object of a declared interface, once it has
  been set apart. -/
  result : Option Argument := none
  /-- Where the result stood among the arguments; negative if there is none. -/
  resultIndex : Int := -1
  /-- The first argument that creates an object of an interface chosen by the
  sender. -/
  generic : Option Argument := none
  span : Span := {}
  /-- The result has been set apart. -/
  normalized : Bool := false
  placement : Placement := {}
  deriving DecidableEq, Repr, Inhabited

namespace Message

def slotCount (m : Message) : Nat :=
  m.args.length + if m.result.isSome then 1 else 0

/-- The arguments in the order of the wire, with the result in its place. -/
def wireArgs (m : Message) : List Argument :=
  match m.result with
  | none => m.args
  | some r =>
    let i := if m.resultIndex < 0 ∨ (m.args.length : Int) < m.resultIndex then
      m.args.length
      else m.resultIndex.toNat
    m.args.take i ++ r :: m.args.drop i

end Message

structure Entry where
  name : Text := []
  value : UInt32 := 0
  since : Int := 0
  summary : Text := []
  deriving DecidableEq, Repr, Inhabited

structure Enumeration where
  name : Text := []
  bitfield : Bool := false
  since : Int := 0
  description : Description := {}
  entries : List Entry := []
  span : Span := {}
  deriving DecidableEq, Repr, Inhabited

structure Interface where
  name : Text := []
  version : Int := 0
  description : Description := {}
  enums : List Enumeration := []
  requests : List Message := []
  events : List Message := []
  span : Span := {}
  deriving DecidableEq, Repr, Inhabited

namespace Interface

/-- The name without the leading segment that all interfaces of a protocol
share. -/
def short (i : Interface) : Text :=
  shortName i.name

def enum? (i : Interface) (name : Text) : Option Enumeration :=
  i.enums.find? fun e => e.name == name

def messages (i : Interface) : List Message :=
  i.requests ++ i.events

def mapMessages (f : Message → Message) (i : Interface) : Interface :=
  { i with requests := i.requests.map f, events := i.events.map f }

end Interface

structure Protocol where
  name : Text := []
  copyright : Text := []
  description : Description := {}
  interfaces : List Interface := []
  span : Span := {}
  /-- The number of empty slots at the start of the type table. -/
  nullRun : Nat := 0
  typeTable : List (Option Reference) := []
  deriving DecidableEq, Repr, Inhabited

namespace Protocol

def interface? (p : Protocol) (name : Text) : Option Interface :=
  p.interfaces.find? fun i => i.name == name

def messages (p : Protocol) : List (Interface × Message) :=
  p.interfaces.flatMap fun i => i.messages.map fun m => (i, m)

def mapMessages (f : Message → Message) (p : Protocol) : Protocol :=
  { p with interfaces := p.interfaces.map (Interface.mapMessages f) }

end Protocol

structure Import where
  name : Text := []
  span : Span := {}
  deriving DecidableEq, Repr, Inhabited

structure Document where
  path : Text := []
  importPath : Text := []
  file : UInt32 := 0
  imports : List Import := []
  protocol : Option Protocol := none
  deriving DecidableEq, Repr, Inhabited

namespace Document

def importNames (d : Document) : List Text :=
  d.imports.map Import.name

def interface? (d : Document) (name : Text) : Option Interface :=
  d.protocol.bind fun p => p.interface? name

def interfaces (d : Document) : List Interface :=
  (d.protocol.map Protocol.interfaces).getD []

def mapProtocol (f : Protocol → Protocol) (d : Document) : Document :=
  { d with protocol := d.protocol.map f }

end Document

end ProtocolCorpus
