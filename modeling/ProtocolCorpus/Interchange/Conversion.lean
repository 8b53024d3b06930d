import ProtocolCorpus.Digest
import ProtocolCorpus.Interchange.Basic
import ProtocolCorpus.Resolution.Pass

/-!
# From compiled documents to the interchange form

Everything a document, the registry and the resolution know is copied into
records; what a document lacks stays empty.
-/

namespace ProtocolCorpus

namespace Interchange

def ofArgument (a : ProtocolCorpus.Argument) : Argument := {
  name := a.name
  kind := a.kind.name
  nullable := a.nullable
  summary := a.summary
  interface := a.resolvedInterface.map fun r => ⟨r.qualifier, r.name, r.target⟩
  enum := a.resolvedEnum.map fun e =>
    ⟨e.qualifier, e.name, e.bitfield, e.found⟩ }

def ofMessage (m : ProtocolCorpus.Message) : Message := {
  name := m.name
  destructor := m.destructor
  since := m.since
  deprecatedSince := m.deprecatedSince
  summary := m.description.summary
  typeIndex := m.placement.typeIndex
  allNull := m.placement.allNull
  result := m.result.map ofArgument
  args := m.args.map ofArgument }

def ofEnumeration (e : ProtocolCorpus.Enumeration) : Enumeration := {
  name := e.name
  bitfield := e.bitfield
  since := e.since
  entries :=
    some (e.entries.map fun v => ⟨v.name, v.value, v.since, v.summary⟩) }

def ofInterface (i : ProtocolCorpus.Interface) : Interface := {
  name := i.name
  shortName := i.short
  version := i.version
  summary := i.description.summary
  enums := i.enums.map ofEnumeration
  requests := i.requests.map ofMessage
  events := i.events.map ofMessage }

/-- A slot of a type table; the empty text stands for an empty slot. -/
def ofSlot : Option ProtocolCorpus.Reference → Text
  | some r => r.describe
  | none => []

/-- The hash of a document; the zero digest means that there is none. -/
def ofDigest (d : Text) : Text :=
  if d = Digest.zero then [] else Text.hex d

def ofDocument (r : Option Registry) (d : ProtocolCorpus.Document)
    (hash : Option Text)
    (resolved : Option ResolvedImports) : Document :=
  let known := (r.bind fun r => r.document? d.path).getD {}
  let base : Document := {
    path := d.path
    importPath := d.importPath
    module := known.module
    aliasName := known.aliasName
    root := known.root
    hash := (hash.map ofDigest).getD []
    imports := ((resolved.map ResolvedImports.imports).getD []).map fun e =>
      ⟨e.aliasName, e.document, e.importPath, e.relativePath⟩ }
  match d.protocol with
  | none => base
  | some p => { base with
      protocol := p.name
      copyright := p.copyright
      summary := p.description.summary
      nullRun := p.nullRun
      typeTable := some (p.typeTable.map ofSlot)
      interfaces := some (p.interfaces.map ofInterface) }

def ofOrder (order : List Text) : Option (List Text) :=
  if order.isEmpty then none else some order

/-- A corpus: the documents with their hashes and resolutions, as far as there
are any. -/
def ofDocuments (r : Option Registry) (docs : List ProtocolCorpus.Document)
    (hashes : List Text)
    (resolved : List ResolvedImports) (emitOrder : List Text) : Corpus := {
  schema := schemaVersion
  emitOrder := ofOrder emitOrder
  documents :=
    some (docs.zipIdx.map fun (d, i) =>
      ofDocument r d hashes[i]? resolved[i]?) }

end Interchange

end ProtocolCorpus
