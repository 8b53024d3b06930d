import ProtocolCorpus.Diagnostic.Basic
import ProtocolCorpus.Resolution.Lookup

/-!
# Resolving documents

Every reference of a document is looked up. What a reference means is stored
with its argument, and the other documents that are needed become the imports of
the document, by their aliases.
-/

namespace ProtocolCorpus

structure ImportEdge where
  aliasName : Text
  document : Text
  importPath : Text
  /-- The import path as seen from the directory of the importing document. -/
  relativePath : Text
  deriving DecidableEq, Repr, Inhabited

structure ResolvedImports where
  document : Text
  aliasName : Text
  importPath : Text
  imports : List ImportEdge
  deriving DecidableEq, Repr, Inhabited

namespace Resolution

def pathSegments (p : Text) : List Text :=
  if p.isEmpty then [] else Text.splitOn 0x2F p

/-- Everything before the last slash; empty if there is none. -/
def directory (p : Text) : Text :=
  match Text.cutLast 0x2F p with
  | some (d, _) => d
  | none => []

/-- The segments that lead from a directory to a target: up as often as needed,
then down. -/
def relativeSegments (base target : List Text) : List Text :=
  let (up, down) := Path.dropCommon base target
  let parts := up.map (fun _ => (".." : Text)) ++ down
  if parts.head? == some ".." then parts else "." :: parts

def relativePath (base target : Text) : Text :=
  Text.join "/" (relativeSegments (pathSegments base) (pathSegments target))

def candidate (o : Owner) : Candidate :=
  ⟨o.protocol, o.module, o.importPath, o.document⟩

/-- The documents needed so far, by alias, and what was found on the way. -/
structure Progress where
  edges : List (Text × Owner) := []
  failed : Bool := false
  diagnostics : List Diagnostic := []

namespace Progress

def report (p : Progress) (d : Diagnostic) : Progress :=
  { p with diagnostics := p.diagnostics ++ [d] }

def reject (p : Progress) (d : Diagnostic) : Progress :=
  { p.report d with failed := true }

/-- A document is needed. Neither the document itself nor the root document is
an import, and one alias cannot stand for two import paths. -/
def need (p : Progress) (r : Registry) (d : Document) (place : Coordinates)
    (span : Span) (o : Owner) :
    Progress :=
  if o.document == d.path then p
  else if ((r.document? o.document).map Registration.root).getD false then p
  else
    match p.edges.lookup o.aliasName with
    | none => { p with edges := p.edges ++ [(o.aliasName, o)] }
    | some first =>
      if first.importPath == o.importPath then p
      else p.reject
        { Diagnostic.error .importAliasCollision span place
            ("alias " ++ o.aliasName.quoted ++ " already imports " ++
            first.importPath.quoted
              ++ ", cannot also import " ++ o.importPath.quoted) with
          candidates := [candidate first, candidate o] }

def fail (p : Progress) (d : Document) (place : Coordinates) (span : Span)
    (e : LookupError) : Progress :=
  p.reject
    { Diagnostic.error e.code span place
        (e.code.title.map Text.lowerByte ++ " " ++ e.name.quoted ++ " in " ++
        d.path) with
      candidates := e.candidates.map candidate }

def needOwner (p : Progress) (r : Registry) (d : Document) (place : Coordinates)
    (span : Span) :
    Option Owner → Progress
  | some o => p.need r d place span o
  | none => p

end Progress

def argument (r : Registry) (d : Document) (i : Interface)
    (a : Argument) : Argument :=
  { a with
    resolvedInterface :=
      if a.interface.isEmpty then a.resolvedInterface
      else
        match interface r d a.interface with
        | .ok t => some t.reference
        | .error _ => a.resolvedInterface
    resolvedEnum :=
      if a.enum.isEmpty then a.resolvedEnum
      else
        match enumeration r d i a.enum with
        | .ok t => some t.reference
        | .error _ => a.resolvedEnum }

def visitInterface (r : Registry) (d : Document) (place : Coordinates)
    (p : Progress) (a : Argument) :
    Progress :=
  if a.interface.isEmpty then p
  else
    match interface r d a.interface with
    | .ok t => p.needOwner r d place a.span t.owner
    | .error e => p.fail d place a.span e

def visitEnum (r : Registry) (d : Document) (i : Interface)
    (place : Coordinates) (p : Progress)
    (a : Argument) : Progress :=
  if a.enum.isEmpty then p
  else
    match enumeration r d i a.enum with
    | .error e => p.fail d place a.span e
    | .ok t =>
      let p := p.needOwner r d place a.span t.owner
      if !t.reference.found then
        p.report (.warning .enumNotFound a.span place
          ("enumeration " ++ a.enum.quoted ++
          " not found, referenced as untyped "
            ++ t.reference.toReference.describe))
      else if t.reference.bitfield && a.kind != .uint then
        p.reject (.error .enumTypeMismatch a.span place
          ("bitfield enumeration " ++ a.enum.quoted ++
          " requires a uint argument, " ++ a.name.quoted
            ++ " is " ++ a.kind.name))
      else p

def visitMessage (r : Registry) (d : Document) (protocol : Text) (p : Progress)
    (im : Interface × Message) : Progress :=
  im.2.wireArgs.foldl (fun p a =>
    let place : Coordinates := ⟨protocol, im.1.name, im.2.name, a.name⟩
    visitEnum r d im.1 place (visitInterface r d place p a) a) p

def visit (r : Registry) (d : Document) : Progress :=
  match d.protocol with
  | none => {}
  | some proto => proto.messages.foldl (visitMessage r d proto.name) {}

def message (r : Registry) (d : Document) (i : Interface)
    (m : Message) : Message :=
  { m with
    args := m.args.map (argument r d i)
    result := m.result.map (argument r d i)
    generic := m.generic.map (argument r d i) }

def document (r : Registry) (d : Document) : Document :=
  d.mapProtocol fun p =>
    { p with
      interfaces := p.interfaces.map fun i => i.mapMessages (message r d i) }

def imports (d : Document) (edges : List (Text × Owner)) : List ImportEdge :=
  (edges.mergeSort fun a b => Text.le a.1 b.1).map fun (name, o) =>
    ⟨name, o.document, o.importPath,
      relativePath (directory d.importPath) o.importPath⟩

end Resolution

structure Resolved where
  ok : Bool
  document : Document
  imports : ResolvedImports
  diagnostics : List Diagnostic

namespace Document

/-- Look up all references of a document. -/
def resolve (r : Registry) (d : Document) : Resolved :=
  let p := Resolution.visit r d
  { ok := !p.failed
    document := Resolution.document r d
    imports := {
      document := d.path
      aliasName := ((r.document? d.path).map Registration.aliasName).getD []
      importPath := d.importPath
      imports := Resolution.imports d p.edges }
    diagnostics := p.diagnostics }

end Document

end ProtocolCorpus
