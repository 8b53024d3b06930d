import ProtocolCorpus.Diagnostic.Basic

/-!
# The import graph

Documents are numbered in the order of their names. An edge leads from a
document to each document it imports, apart from itself; names that are imported
and not loaded have a number and no edges.
-/

namespace ProtocolCorpus

/-- A document that is imported, and the alias it has there. -/
structure ImportTarget where
  path : Text
  aliasName : Text := []
  deriving DecidableEq, Repr, Inhabited

structure GraphDocument where
  path : Text := []
  importPath : Text := []
  protocol : Text := []
  file : UInt32 := 0
  span : Span := {}
  imports : List ImportTarget := []
  contentDigest : Text := []
  /-- The digest of its content and of all it depends on. -/
  digest : Text := []
  deriving DecidableEq, Repr, Inhabited

/-- A loaded document, which may ask not to be reported on. -/
structure GraphNode where
  document : GraphDocument
  silent : Bool := false
  deriving DecidableEq, Repr, Inhabited

/-- The names by number, the loaded documents and the edges. -/
structure ImportGraph where
  names : List Text
  slots : List (Option GraphNode)
  edges : List (List Nat)
  deriving Repr

namespace ImportGraph

/-- A sorted list with neighbours that are equal joined. -/
def joinEqual : List Text → List Text
  | a :: b :: rest =>
  if a = b then joinEqual (b :: rest) else a :: joinEqual (b :: rest)
  | rest => rest

/-- The names of all documents and their imports in ascending order, each once.
-/
def nameAll (docs : List GraphDocument) : List Text :=
  joinEqual
    (Text.sort
    ((docs.flatMap fun d => d.path :: d.imports.map ImportTarget.path).filter
    fun n => !n.isEmpty))

def slot (nodes : List GraphNode) (name : Text) : Option GraphNode :=
  nodes.find? fun x => x.document.path == name

/-- The numbers a document imports, ascending and without its own. -/
def edgesOf (names : List Text) (self : Nat) (d : GraphDocument) : List Nat :=
  let imported := d.imports.map ImportTarget.path
  names.zipIdx.filterMap fun (n, id) => if id ≠ self ∧ imported.contains n
    then some id else none

/-- The graph of loaded documents over given names. -/
def build (names : List Text) (nodes : List GraphNode) : ImportGraph where
  names := names
  slots := names.map (slot nodes)
  edges := names.zipIdx.map fun (n, id) =>
    match slot nodes n with
    | some x => edgesOf names id x.document
    | none => []

/-- The graph of the loaded documents over all names that occur in them. -/
def ofNodes (nodes : List GraphNode) : ImportGraph :=
  build (nameAll (nodes.map GraphNode.document)) nodes

def duplicate (first again : GraphDocument) : Diagnostic :=
  { Diagnostic.error .duplicateDocument again.span {}
    ("duplicate document " ++ again.path.quoted) with
    notes := if first.span.isZero then []
      else [⟨first.span, "previous declaration of " ++ first.path.quoted⟩] }

def duplicates (names : List Text) : (earlier : List GraphNode) →
    List GraphNode → List Diagnostic
  | _, [] => []
  | earlier, x :: xs =>
    let found := match slot earlier x.document.path with
      | some first =>
        if x.silent || !names.contains x.document.path then []
        else [duplicate first.document x.document]
      | none => []
    found ++ duplicates names (earlier ++ [x]) xs

def node? (g : ImportGraph) (id : Nat) : Option GraphNode :=
  (g.slots[id]?).getD none

def present (g : ImportGraph) (id : Nat) : Bool :=
  (g.node? id).isSome

def targets (g : ImportGraph) (id : Nat) : List Nat :=
  (g.edges[id]?).getD []

def ids (g : ImportGraph) : List Nat :=
  List.range g.names.length

def loaded (g : ImportGraph) : List Nat :=
  g.ids.filter g.present

def imports (g : ImportGraph) (u v : Nat) : Bool :=
  (g.targets u).contains v

def indegree (g : ImportGraph) (id : Nat) : Nat :=
  if g.present id then g.ids.countP fun u => g.imports u id else 0

def name (g : ImportGraph) (id : Nat) : Text :=
  (g.names[id]?).getD []

end ImportGraph

end ProtocolCorpus
