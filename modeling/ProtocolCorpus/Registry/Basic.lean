import ProtocolCorpus.Registry.Alias

/-!
# The registry

The registry knows which documents declare an interface and under which alias
each document is referred to. It is built once from all documents of a corpus
and not changed afterwards.
-/

namespace ProtocolCorpus

/-- A declaration of an interface, with what is known of the document it stands
in. -/
structure Owner where
  document : Text := []
  protocol : Text := []
  module : Text := []
  name : Text := []
  aliasName : Text := []
  importPath : Text := []
  declaration : Interface := {}
  deriving Repr, Inhabited

structure Registration where
  document : Text := []
  protocol : Text := []
  module : Text := []
  aliasName : Text := []
  importPath : Text := []
  imports : List Text := []
  root : Bool := false
  deriving Repr, Inhabited

inductive RegistryError
  | duplicateDocument (path : Text)
  | aliasExhausted (path : Text)
  deriving DecidableEq, Repr

def RegistryError.message : RegistryError → Text
  | .duplicateDocument path => path ++ ": duplicate document identity"
  | .aliasExhausted path => path ++ ": alias assignment exhausted"

/-- All documents, all declarations and all aliases of a corpus. -/
structure Registry where
  rules : NamingRules := {}
  documents : List Registration := []
  /-- Every declaration of an interface, in the order of the documents. -/
  declarations : List Owner := []
  aliases : AliasTable := {}

namespace Registry

def document? (r : Registry) (path : Text) : Option Registration :=
  r.documents.find? fun d => d.document == path

def aliasOwner? (r : Registry) (name : Text) : Option Text :=
  r.aliases[name]?

/-- The document that is being added is the root: the first one that declares
the root protocol. -/
def isRoot (r : Registry) (d : Document) : Bool :=
  !r.rules.rootProtocol.isEmpty && Alias.protocolName d == r.rules.rootProtocol
    && !r.aliases.contains r.rules.rootAlias

def register (d : Document) (name : Text) (root : Bool) : Registration := {
  document := d.path
  protocol := Alias.protocolName d
  module := Naming.moduleName (Alias.protocolName d)
  aliasName := name
  importPath := d.importPath
  imports := d.importNames
  root }

def declarationsOf (d : Document) (m : Registration) : List Owner :=
  d.interfaces.map fun i => {
    document := m.document
    protocol := m.protocol
    module := m.module
    name := i.short
    aliasName := m.aliasName
    importPath := m.importPath
    declaration := i }

def add (r : Registry) (d : Document) : Except RegistryError Registry :=
  if (r.document? d.path).isSome then .error (.duplicateDocument d.path)
  else
    let root := r.isRoot d
    let name? := if root then some r.rules.rootAlias
      else Alias.assign? r.rules r.aliases d
    match name? with
    | none => .error (.aliasExhausted d.path)
    | some name =>
      let m := register d name root
      .ok { r with
        documents := r.documents ++ [m]
        declarations := r.declarations ++ declarationsOf d m
        aliases := r.aliases.insert name d.importPath }

def build (rules : NamingRules) (docs : List Document) :
    Except RegistryError Registry :=
  docs.foldlM add { rules }

/-- The order of the declarations of one interface: by import path, protocol and
document. -/
def Owner.ordered (a b : Owner) : Bool :=
  ((Text.compare a.importPath b.importPath).then <|
    (Text.compare a.protocol b.protocol).then <|
    Text.compare a.document b.document) != .gt

def owners (r : Registry) (name : Text) : List Owner :=
  (r.declarations.filter fun o => o.declaration.name == name).mergeSort
    Owner.ordered

/-- The names of all declared interfaces in ascending order. -/
def names (r : Registry) : List Text :=
  (Text.sort (r.declarations.map fun o => o.declaration.name)).foldr
    (fun n acc => if acc.head? == some n then acc else n :: acc) []

def rootOwner? (r : Registry) (name : Text) : Option Owner :=
  (r.owners name).find? fun o =>
    ((r.document? o.document).map Registration.root).getD false

end Registry

end ProtocolCorpus
