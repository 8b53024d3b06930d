import ProtocolCorpus.Compilation.Basic
import ProtocolCorpus.Document.Reader
import ProtocolCorpus.ImportGraph.Digests
import ProtocolCorpus.Protocol.Validation

/-!
# The phases of a compilation

Documents are found, loaded, read and checked, registered, resolved, laid out
and put in order. Reading and resolving look at one document at a time and keep
what they find apart, so that the result does not depend on the order in which
that is done.
-/

namespace ProtocolCorpus

namespace Compilation

def discover (o : CompilationOptions) (c : Compilation) : Compilation :=
  let c := c.phase "discover" fun c =>
    match Corpus.discover c.store o.root o.patterns with
    | .error e => (c.fail (.discovery o.root e), 0)
    | .ok ids => ({ c with found := ids }, ids.length)
  if c.failure.isNone && c.found.isEmpty then
    (c.report
      (.error .noDocuments {} {}
      ("no protocol documents found under " ++ o.root.quoted))).fail .aborted
  else c

def loadFile (o : CompilationOptions) (c : Compilation)
    (id : Text) : Compilation :=
  let path := Path.join [o.root, id]
  match c.store.read path with
  | .ok content =>
    let (files, file) := c.files.load path content
    { c with files, loaded := c.loaded ++ [file.id] }
  | .error e =>
    c.report
      (.error .loadFailed {} {}
      ("failed to load " ++ id.quoted ++ ": " ++ e.message))

def load (o : CompilationOptions) (c : Compilation) : Compilation :=
  stopOnErrors <| c.phase "load" fun c =>
    let c := c.found.foldl (loadFile o) c
    (c, c.loaded.length)

/-- What the options add to the key of a cache entry. -/
def fingerprint (o : CompilationOptions) : Text :=
  "schema=" ++ Text.ofNat CacheEntry.schema.toNat ++ [0] ++ "base=" ++
    o.importBase ++ [0]
    ++ "prefix=" ++ o.naming.rootStart ++ [0] ++ "alias=" ++
    o.naming.rootAlias ++ [0]
    ++ "proto=" ++ o.naming.rootProtocol ++ [0] ++ "include=" ++
    Text.join "," o.patterns

/-- The key of the cache entry: the digest of the files and of what the options
add. -/
def cacheKey (o : CompilationOptions) (files : Source.Files) : Text :=
  Digest.combine files.digest [Digest.sha256 (fingerprint o)]

def restore (o : CompilationOptions) (c : Compilation) : Compilation :=
  match o.cache.bind fun cache => cache.get? c.store (cacheKey o c.files) with
  | none => c
  | some e => { c with
      documents := e.documents
      resolutions := e.resolutions
      graph := e.graph
      emission := e.emission
      bag := c.bag.addAll e.diagnostics
      cacheHit := true
      tracer :=
        c.tracer.point .pass "cache.hit"
        ("documents=" ++ Text.ofNat e.documents.length) c.span }

/-- What reading one document yields: the document, checked and normalized, and
a bag of its own. -/
structure Parsed where
  document : Option Document
  bag : Bag

/-- Read and check the document with an identity. A finding that is made twice
counts once. -/
def parseFile (o : CompilationOptions) (id : Text)
    (file : Source.File) : Parsed :=
  let (read, found) := Document.read Document.maxOffset file
  let located := read.map fun d => { d with
      path := id, importPath := Corpus.importPath o.importBase id }
  let verdict := located.map Document.validate
  let found := found ++ (verdict.map Verdict.diagnostics).getD []
  { document := verdict.map Verdict.document
    bag := (Bag.new o.limit).addAll (({} : Seen).fresh found) }

def source? (c : Compilation) (i : Nat) : Option (Text × Source.File) := do
  let id ← c.found[i]?
  let file ← c.files.get? (← c.loaded[i]?)
  return (id, file)

/-- A document of a phase is worked on: a span of the trace that ends with the
given detail. -/
def traceDocument (name : Text) (detail : Nat → Text) (identity : Nat → Text)
    (c : Compilation) (i : Nat) :
    Compilation :=
  let (tracer, span) := c.tracer.start .document name c.span
  let tracer := tracer.remark span "document" (identity i)
  { c with tracer := tracer.finish span (detail i) }

def parse (o : CompilationOptions) (c : Compilation) : Compilation :=
  stopOnErrors <| c.phase "parse" fun c =>
    let count := c.found.length
    if o.cancelled then (c.fail .cancelled, count)
    else
      let order := o.schedule.order count
      let work (i : Nat) : Option Parsed := (c.source? i).map fun (id, file) =>
        parseFile o id file
      let slots := (fillSlots order work count).map Option.join
      let c :=
        order.foldl (traceDocument "parse" (fun _ => []) fun i =>
          c.found[i]?.getD []) c
      ({ c with
          documents := slots.filterMap fun s => s.bind Parsed.document
          bag := mergeBags c.bag (slots.filterMap fun s => s.map Parsed.bag) },
            count)

def registryDiagnostic (e : RegistryError) : Diagnostic :=
  .error (match e with
    | .aliasExhausted _ => .aliasExhausted
    | .duplicateDocument _ => .duplicateDocument) {} {} e.message

def register (o : CompilationOptions) (c : Compilation) : Compilation :=
  c.phase "registry" fun c =>
    match Registry.build o.naming c.documents with
    | .ok r => ({ c with registry := some r }, c.documents.length)
    | .error e =>
      ((c.report (registryDiagnostic e)).fail .aborted, c.documents.length)

def resolvedDetail (v : Resolved) : Text :=
  "ok=" ++ (if v.ok then ("true" : Text) else "false") ++ " imports=" ++
    Text.ofNat v.imports.imports.length

def resolve (o : CompilationOptions) (c : Compilation) : Compilation :=
  stopOnErrors <| c.phase "resolve" fun c =>
    let count := c.documents.length
    match c.registry with
    | none => (c, count)
    | some r =>
      let documents := c.documents.toArray
      let work (i : Nat) : Option Resolved := documents[i]?.map fun d =>
        d.resolve r
      let order := o.schedule.order count
      let slots := ((fillSlots order work count).map Option.join).toArray
      let c :=
        order.foldl
          (traceDocument "resolve"
          (fun i => ((slots[i]?.join).map resolvedDetail).getD [])
        fun i => (documents[i]?.map Document.path).getD []) c
      let done := slots.toList.filterMap id
      ({ c with
          documents := done.map Resolved.document
          resolutions := done.map Resolved.imports
          timer := c.timer.map fun t =>
            order.foldl (fun t _ => t.observe "resolve.document" 0) t
          bag := mergeBags c.bag
            (done.map fun v => (Bag.new o.limit).addAll v.diagnostics) }, count)

/-- Lay out documents in order, up to the first for which that is not possible.
-/
def layOutAll : List Document → List Document × Option CompilationFailure
  | [] => ([], none)
  | d :: ds =>
    match d.layOut with
    | .error e => (d :: ds, some (.layout d.path e))
    | .ok d =>
      let (rest, failure) := layOutAll ds
      (d :: rest, failure)

def layOut (c : Compilation) : Compilation :=
  c.phase "layout" fun c =>
    let (documents, failure) := layOutAll c.documents
    ({ c with documents, failure }, documents.length)

def graphDocument (files : Source.Files) (d : Document)
    (r : ResolvedImports) : GraphDocument := {
  path := d.path
  importPath := d.importPath
  protocol := (d.protocol.map Protocol.name).getD []
  file := d.file
  span := (d.protocol.map Protocol.span).getD {}
  imports := r.imports.map fun e =>
    { path := e.document, aliasName := e.aliasName }
  contentDigest := ((files.get? d.file).map Source.File.digest).getD Digest.zero
  digest := Digest.zero }

/-- Build the import graph: digests of the documents, warnings about cycles and
the order of emission. -/
def connect (c : Compilation) : Compilation :=
  c.phase "graph" fun c =>
    let documents :=
      List.zipWith (graphDocument c.files) c.documents c.resolutions
    let nodes : List GraphNode := documents.map fun d => { document := d }
    let names := ImportGraph.nameAll documents
    let g := ImportGraph.build names nodes
    let w := g.waves
    let known := g.digests w
    let documents := documents.map fun d =>
      { d with digest := ImportGraph.digestOf known (names.idxOf d.path) }
    ({ c with
        graph := documents
        emission := ImportGraph.emitted nodes
        bag := c.bag.addAll
          (ImportGraph.duplicates names [] nodes ++ g.cycleWarnings w) },
          documents.length)

/-- Keep the result in the cache, unless there are errors. That this fails is
not a failure. -/
def remember (o : CompilationOptions) (c : Compilation) : Compilation :=
  match o.cache with
  | none => c
  | some cache =>
    if c.bag.hasErrors then c
    else
      let entry : CacheEntry := {
        documents := c.documents
        resolutions := c.resolutions
        graph := c.graph
        emission := c.emission
        diagnostics := c.bag.items.toList }
      let (store, error) := cache.put c.store (cacheKey o c.files) entry
      let tracer := match error with
        | none => c.tracer
        | some e => c.tracer.point .pass "cache.store_failed" e.message c.span
      { c with store, tracer }

end Compilation

end ProtocolCorpus
