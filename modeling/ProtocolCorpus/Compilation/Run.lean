import ProtocolCorpus.Compilation.Phases
import ProtocolCorpus.Interchange.Conversion
import ProtocolCorpus.Timing.Report

/-!
# Running a compilation

The phases follow each other as long as none fails; a result from the cache
stands for all phases but the registration.
-/

namespace ProtocolCorpus

namespace Compilation

/-- A step of a compilation that is not done again for a result from the cache.
-/
def unlessRecalled (step : Compilation → Compilation)
    (c : Compilation) : Compilation :=
  if c.cacheHit then c else step c

def unlessFailed (step : Compilation → Compilation)
    (c : Compilation) : Compilation :=
  if c.failure.isSome then c else step c

def steps (o : CompilationOptions) : List (Compilation → Compilation) :=
  [discover o, load o, restore o, unlessRecalled (parse o), register o,
    unlessRecalled (resolve o), unlessRecalled layOut, unlessRecalled connect,
    unlessRecalled (remember o)]

def complete (o : CompilationOptions) : CompilationOptions :=
  { o with
    root := if o.root.isEmpty then "." else o.root
    naming := if o.naming = ⟨[], [], []⟩ then {} else o.naming }

def start (o : CompilationOptions) (store : FileSystem) (tracer : Trace.Tracer)
    (parent : UInt64) :
    Compilation :=
  let (tracer, span) := tracer.start .command "compile" parent
  { store
    files := ({} : Source.Files).withBase o.root
    bag := Bag.new o.limit
    timer := if o.timings then some {} else none
    tracer := tracer.remark span "root" o.root
    span }

def timingDiagnostic (o : CompilationOptions) (c : Compilation)
    (r : Timing.Report) : Diagnostic :=
  let documents := Text.ofNat c.documents.length
  { severity := .info
    code := .timings
    message := "timings (compile): " ++ documents ++ " documents, total " ++
      r.total.fixed 2 ++ " ms"
      ++ (if c.cacheHit then ", cache hit" else "")
    notes := [{ message := Json.members [
      ("kind", some "\"compile\""),
      ("root", some (Json.quoted o.root)),
      ("documents", some documents),
      ("cache_hit", if c.cacheHit then some "true" else none),
      ("total_ms", some (Json.number r.total)),
      ("phases", some r.phasesJson)] }] }

/-- The bag with one more diagnostic, for which room is made if there is none.
-/
def forceInto (bag : Bag) (d : Diagnostic) : Bag :=
  let (taken, bag) := bag.offer d
  if taken then bag else bag.merge ((Bag.new 1).add d)

/-- The timings are reported and the span around everything ends. -/
def finish (o : CompilationOptions) (c : Compilation) : Compilation :=
  let c := match c.timer with
    | none => c
    | some t =>
      { c with bag := forceInto c.bag (timingDiagnostic o c t.report) }
  let detail := "documents=" ++ Text.ofNat c.documents.length ++
    " diagnostics=" ++ Text.ofNat c.bag.size
  { c with tracer := c.tracer.finish c.span detail }

def loadedOnly (o : CompilationOptions) (store : FileSystem) : Compilation :=
  let o := complete o
  unlessFailed (load o) (discover o (start o store {} 0))

def cachePath? (o : CompilationOptions) (store : FileSystem) : Option Text :=
  o.cache.map fun cache =>
    cache.path (cacheKey (complete o) (loadedOnly o store).files)

def corpus (c : Compilation) : Interchange.Corpus :=
  Interchange.ofDocuments c.registry c.documents
    (c.graph.map GraphDocument.digest) c.resolutions c.emission

end Compilation

def compile (o : CompilationOptions) (store : FileSystem)
    (tracer : Trace.Tracer := {}) (parent : UInt64 := 0) :
    Compilation :=
  let o := Compilation.complete o
  Compilation.finish o
    ((Compilation.steps o).foldl (fun c step => Compilation.unlessFailed step c)
    (Compilation.start o store tracer parent))

end ProtocolCorpus
