import ProtocolCorpus.Cache.Store
import ProtocolCorpus.Corpus.Discovery
import ProtocolCorpus.Diagnostic.Bag
import ProtocolCorpus.Layout
import ProtocolCorpus.Source.File
import ProtocolCorpus.Timing.Timer
import ProtocolCorpus.Trace.Tracer

/-!
# Compilations

A compilation takes the documents of a corpus through all phases, from finding
them to the order in which code for them can be emitted. It is a value that
grows from phase to phase; a phase that fails leaves it as far as it came, with
the reason.
-/

namespace ProtocolCorpus

inductive CompilationFailure
  | aborted
  /-- The caller lost interest. -/
  | cancelled
  | discovery (root : Text) (error : DiscoveryError)
  | layout (document : Text) (error : LayoutError)

def CompilationFailure.message : CompilationFailure → Text
  | .aborted => "compilation aborted"
  | .cancelled => "context canceled"
  | .discovery root e => "discover " ++ root ++ ": " ++ e.message
  | .layout d e => d ++ ": " ++ e.describe

/-- The order in which the documents of a phase are worked on, given their
number. Each has its turn once. -/
structure Schedule where
  order : Nat → List Nat
  perm : ∀ count, (order count).Perm (List.range count)

def Schedule.sequential : Schedule :=
  ⟨List.range, fun _ => .refl _⟩

structure CompilationOptions where
  root : Text := "."
  patterns : List Text := []
  importBase : Text := []
  naming : NamingRules := {}
  /-- The number of diagnostics a bag may hold. -/
  limit : Int := 0
  timings : Bool := false
  /-- Where results are looked up and kept. -/
  cache : Option Cache := none
  cancelled : Bool := false
  schedule : Schedule := .sequential

/-- A phase begins, or ends with so many documents. -/
structure PhaseEvent where
  name : Text
  documents : Option Nat := none
  deriving DecidableEq, Repr, Inhabited

structure Compilation where
  store : FileSystem
  files : Source.Files
  bag : Bag
  found : List Text := []
  loaded : List UInt32 := []
  registry : Option Registry := none
  documents : List Document := []
  resolutions : List ResolvedImports := []
  graph : List GraphDocument := []
  /-- The identities of the documents, each behind those it depends on. -/
  emission : List Text := []
  cacheHit : Bool := false
  failure : Option CompilationFailure := none
  events : Array PhaseEvent := #[]
  timer : Option Timing.Timer := none
  tracer : Trace.Tracer := {}
  /-- The number of the span around everything. -/
  span : UInt64 := 0

namespace Compilation

def document? (c : Compilation)
    (id : Text) : Option (Document × ResolvedImports) :=
  (c.documents.zip c.resolutions).find? fun (d, _) => d.path == id

def report (c : Compilation) (d : Diagnostic) : Compilation :=
  { c with bag := c.bag.add d }

def fail (c : Compilation) (f : CompilationFailure) : Compilation :=
  { c with failure := some f }

/-- The compilation ends here if there are errors and no other reason. -/
def stopOnErrors (c : Compilation) : Compilation :=
  if c.failure.isNone && c.bag.hasErrors then c.fail .aborted else c

/-- One phase: its start and its end with the number of documents are made known
to all who watch. -/
def phase (name : Text) (work : Compilation → Compilation × Nat)
    (c : Compilation) : Compilation :=
  let (tracer, span) := c.tracer.start .pass name c.span
  let index := (c.timer.map fun t => t.phases.size).getD 0
  let (c, count) := work { c with
    tracer
    timer := c.timer.map fun t => (t.start name).1
    events := c.events.push ⟨name, none⟩ }
  let note := Text.ofNat count ++ " documents"
  { c with
    tracer := c.tracer.finish span note
    timer := c.timer.map fun t => t.finish index 0 note
    events := c.events.push ⟨name, some count⟩ }

/-- Places filled one after the other in the given order; what is out of range
is ignored. -/
def fillSlots (order : List Nat) (work : Nat → α)
    (count : Nat) : List (Option α) :=
  (order.foldl (fun slots i => slots.setIfInBounds i (some (work i)))
    (Array.replicate count (none : Option α))).toList

/-- The bag with the bags of all documents behind it, in the order of the
documents. -/
def mergeBags (bag : Bag) (bags : List Bag) : Bag :=
  bags.foldl Bag.merge bag

end Compilation

end ProtocolCorpus
