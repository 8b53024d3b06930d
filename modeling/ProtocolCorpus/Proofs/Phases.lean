import Mathlib.Data.List.Forall2
import ProtocolCorpus.Compilation.Run

/-!
# Phases that nobody watches

A compilation keeps a trace, a timer and a row of events for those who watch it,
and works on its documents in the order that a schedule gives. None of this has
a say in what is compiled: without those who watch, a run is a fold of the steps
below, in which no schedule occurs.
-/

namespace ProtocolCorpus

namespace Compilation

/-! ## Those who watch -/

/-- What is kept for those who watch a compilation. -/
structure Watch where
  tracer : Trace.Tracer
  timer : Option Timing.Timer
  events : Array PhaseEvent

def watched (c : Compilation) (w : Watch) : Compilation :=
  { c with tracer := w.tracer, timer := w.timer, events := w.events }

def Watch.atStart (name : Text) (c : Compilation) : Watch where
  tracer := (c.tracer.start .pass name c.span).1
  timer := c.timer.map fun t => (t.start name).1
  events := c.events.push ⟨name, none⟩

def bare (c : Compilation) : Compilation :=
  { c with events := #[], timer := none, tracer := {}, span := 0 }

/-- A phase does its work, and the rest is for those who watch. -/
theorem bare_phase (name : Text) (work : Compilation → Compilation × Nat)
    (c : Compilation) :
    (phase name work c).bare = (work (c.watched (.atStart name c))).1.bare :=
  rfl

theorem foldl_traceDocument_eq
    (name : Text) (detail identity : Nat → Text) (order : List Nat)
    (c : Compilation) :
    order.foldl (traceDocument name detail identity) c =
      { c with
        tracer :=
          (order.foldl (traceDocument name detail identity) c).tracer } := by
  induction order generalizing c with
  | nil => rfl
  | cons i order ih => exact ih (traceDocument name detail identity c i)

theorem bare_stopOnErrors (c : Compilation) :
    c.stopOnErrors.bare = c.bare.stopOnErrors :=
  apply_ite bare _ _ _

/-! ## Slots -/

theorem getElem?_foldl_setIfInBounds
    {α : Type} (order : List Nat) (work : Nat → α) (slots : Array (Option α))
    (j : Nat) (hj : j < slots.size) :
    (order.foldl (fun slots i => slots.setIfInBounds i (some (work i)))
      slots)[j]? =
      if j ∈ order then some (some (work j)) else slots[j]? := by
  induction order generalizing slots with
  | nil => simp
  | cons i order ih =>
    have hsize : j < (slots.setIfInBounds i (some (work i))).size := by
      simpa using hj
    rw [List.foldl_cons, ih _ hsize, Array.getElem?_setIfInBounds]
    by_cases hrest : j ∈ order
    · simp [hrest]
    · by_cases hij : i = j
      · simp [hrest, hij, hj]
      · have hji : ¬ j = i := fun h => hij h.symm
        simp [hrest, hij, hji]

theorem size_foldl_setIfInBounds
    {α : Type} (order : List Nat) (work : Nat → α) (slots : Array (Option α)) :
    (order.foldl (fun slots i => slots.setIfInBounds i (some (work i)))
      slots).size = slots.size := by
  induction order generalizing slots with
  | nil => rfl
  | cons i order ih => rw [List.foldl_cons, ih, Array.size_setIfInBounds]

/-- In whatever order the documents have their turn, every slot is filled with
its own result. -/
theorem fillSlots_order
    {α : Type} (s : Schedule) (work : Nat → α) (count : Nat) :
    fillSlots (s.order count) work count = (List.range count).map fun i =>
      some (work i) := by
  apply List.ext_getElem?
  intro j
  rw [fillSlots, Array.getElem?_toList, List.getElem?_map]
  by_cases hj : j < count
  · have hmem : j ∈ s.order count :=
      (s.perm count).mem_iff.2 (List.mem_range.2 hj)
    rw [getElem?_foldl_setIfInBounds _ _ _ _ (by simpa using hj), if_pos hmem,
      List.getElem?_range hj]
    rfl
  · rw [List.getElem?_eq_none (by simpa using hj), Array.getElem?_eq_none]
    · rfl
    · rw [size_foldl_setIfInBounds, Array.size_replicate]
      exact Nat.le_of_not_lt hj

/-- A phase gets one result for each document that is there. -/
theorem map_join_fillSlots
    {α β : Type} (s : Schedule) (source : Nat → Option α) (work : α → β)
    (count : Nat) :
    (fillSlots (s.order count) (fun i => (source i).map work) count).map
      Option.join =
      (List.range count).map fun i => (source i).map work := by
  rw [fillSlots_order, List.map_map]
  rfl

/-! ## Finding and loading -/

def withFound (o : CompilationOptions) (c : Compilation) : Compilation :=
  match Corpus.discover c.store o.root o.patterns with
  | .error e => c.fail (.discovery o.root e)
  | .ok ids =>
    if c.failure.isNone && ids.isEmpty then
      ({ c with found := ids }.report
        (.error .noDocuments {} {}
        ("no protocol documents found under " ++ o.root.quoted))).fail .aborted
    else { c with found := ids }

theorem bare_discover (o : CompilationOptions) (c : Compilation) :
    (discover o c).bare = withFound o c.bare := by
  unfold discover withFound
  dsimp only
  rw [apply_ite bare]
  cases hfound : Corpus.discover c.store o.root o.patterns with
  | error e => simp [phase, hfound, fail, bare]
  | ok ids => simp [phase, hfound, fail, report, bare]

def withFile (o : CompilationOptions) (content : Text → Except FileError Text)
    (c : Compilation) (id : Text) :
    Compilation :=
  match content id with
  | .ok raw =>
    { c with
      files := (c.files.load (Path.join [o.root, id]) raw).1
      loaded := c.loaded ++ [(c.files.load (Path.join [o.root, id]) raw).2.id] }
  | .error e =>
    c.report
      (.error .loadFailed {} {}
      ("failed to load " ++ id.quoted ++ ": " ++ e.message))

def contentOf (o : CompilationOptions) (store : FileSystem)
    (id : Text) : Except FileError Text :=
  store.read (Path.join [o.root, id])

theorem loadFile_eq (o : CompilationOptions) (c : Compilation) (id : Text) :
    loadFile o c id = withFile o (contentOf o c.store) c id := by
  cases hread : c.store.read (Path.join [o.root, id]) with
  | error e => simp only [loadFile, withFile, contentOf, hread]
  | ok raw => simp only [loadFile, withFile, contentOf, hread]

theorem store_withFile
    (o : CompilationOptions) (content : Text → Except FileError Text)
    (c : Compilation) (id : Text) :
    (withFile o content c id).store = c.store := by
  unfold withFile
  cases content id with
  | error e => rfl
  | ok raw => rfl

theorem bare_withFile
    (o : CompilationOptions) (content : Text → Except FileError Text)
    (c : Compilation) (id : Text) :
    (withFile o content c id).bare = withFile o content c.bare id := by
  unfold withFile
  cases content id with
  | error e => rfl
  | ok raw => rfl

theorem bare_foldl_loadFile (o : CompilationOptions) (ids : List Text)
    (c : Compilation) :
    (ids.foldl (loadFile o) c).bare =
      ids.foldl (withFile o (contentOf o c.store)) c.bare := by
  induction ids generalizing c with
  | nil => rfl
  | cons id ids ih =>
    rw [List.foldl_cons, ih, loadFile_eq, store_withFile, bare_withFile]
    rfl

def withFiles (o : CompilationOptions) (c : Compilation) : Compilation :=
  (c.found.foldl (withFile o (contentOf o c.store)) c).stopOnErrors

theorem bare_load (o : CompilationOptions) (c : Compilation) :
    (load o c).bare = withFiles o c.bare := by
  rw [load, bare_stopOnErrors, bare_phase, bare_foldl_loadFile]
  rfl

/-! ## Recalling and remembering -/

def recalled? (o : CompilationOptions) (store : FileSystem)
    (files : Source.Files) : Option CacheEntry :=
  o.cache.bind fun cache => cache.get? store (cacheKey o files)

def withEntry (c : Compilation) (e : CacheEntry) : Compilation :=
  { c with
    documents := e.documents
    resolutions := e.resolutions
    graph := e.graph
    emission := e.emission
    bag := c.bag.addAll e.diagnostics
    cacheHit := true }

/-- The compilation with the result that is kept for its files, if there is one.
-/
def withRecalled (o : CompilationOptions) (c : Compilation) : Compilation :=
  ((recalled? o c.store c.files).map (withEntry c)).getD c

theorem bare_restore (o : CompilationOptions) (c : Compilation) :
    (restore o c).bare = withRecalled o c.bare := by
  unfold restore withRecalled recalled?
  change _ =
    (((o.cache.bind fun cache => cache.get? c.store (cacheKey o c.files)).map
    (withEntry c.bare)).getD c.bare)
  cases o.cache.bind fun cache => cache.get? c.store (cacheKey o c.files) with
  | none => rfl
  | some e => rfl

def entry (c : Compilation) : CacheEntry where
  documents := c.documents
  resolutions := c.resolutions
  graph := c.graph
  emission := c.emission
  diagnostics := c.bag.items.toList

def withKept (o : CompilationOptions) (c : Compilation) : Compilation :=
  match o.cache with
  | none => c
  | some cache =>
    if c.bag.hasErrors then c
    else { c with store := (cache.put c.store (cacheKey o c.files) c.entry).1 }

theorem bare_remember (o : CompilationOptions) (c : Compilation) :
    (remember o c).bare = withKept o c.bare := by
  unfold remember withKept
  cases o.cache with
  | none => rfl
  | some cache =>
    dsimp only
    rw [apply_ite bare]
    rfl

/-! ## Reading and checking -/

/-- The documents with their files, as far as both are there. -/
def sources (c : Compilation) : List (Text × Source.File) :=
  (List.range c.found.length).filterMap c.source?

def checked (o : CompilationOptions) (sources : List (Text × Source.File)) :
    List Document :=
  sources.filterMap fun s => (parseFile o s.1 s.2).document

def checkedBags (o : CompilationOptions) (sources : List (Text × Source.File)) :
    List Bag :=
  sources.map fun s => (parseFile o s.1 s.2).bag

def withChecked (o : CompilationOptions) (c : Compilation) : Compilation :=
  stopOnErrors <|
    if o.cancelled then c.fail .cancelled
    else { c with
      documents := checked o c.sources
      bag := mergeBags c.bag (checkedBags o c.sources) }

theorem bare_parse (o : CompilationOptions) (c : Compilation) :
    (parse o c).bare = withChecked o c.bare := by
  have hdocuments : ((List.range c.found.length).map fun i =>
      (c.source? i).map fun s => parseFile o s.1 s.2).filterMap
      (fun s => s.bind Parsed.document) =
      checked o c.sources := by
    rw [checked, sources, List.filterMap_map, List.filterMap_filterMap]
    congr 1
    funext i
    cases hsource : c.source? i with
    | none => simp [hsource]
    | some s => simp [hsource]
  have hbags : ((List.range c.found.length).map fun i =>
      (c.source? i).map fun s => parseFile o s.1 s.2).filterMap
      (fun s => s.map Parsed.bag) =
      checkedBags o c.sources := by
    rw [checkedBags, sources, List.filterMap_map, List.map_filterMap]
    congr 1
    funext i
    simp [Function.comp_def]
  rw [parse, bare_stopOnErrors, bare_phase, withChecked]
  dsimp only
  congr 1
  by_cases hcancelled : o.cancelled = true
  · rw [if_pos hcancelled, if_pos hcancelled]
    rfl
  · rw [if_neg hcancelled, if_neg hcancelled, map_join_fillSlots,
      foldl_traceDocument_eq]
    change _ = { c.bare with
      documents := checked o c.sources
      bag := mergeBags c.bag (checkedBags o c.sources) }
    rw [← hdocuments, ← hbags]
    rfl

/-! ## Registering and resolving -/

def withRegistry (o : CompilationOptions) (c : Compilation) : Compilation :=
  match Registry.build o.naming c.documents with
  | .ok r => { c with registry := some r }
  | .error e => (c.report (registryDiagnostic e)).fail .aborted

theorem bare_register (o : CompilationOptions) (c : Compilation) :
    (register o c).bare = withRegistry o c.bare := by
  rw [register, bare_phase]
  have hdocuments : c.bare.documents = c.documents := rfl
  unfold withRegistry
  rw [hdocuments]
  dsimp only [watched]
  cases Registry.build o.naming c.documents with
  | error e => rfl
  | ok r => rfl

def resolvedBags (o : CompilationOptions) (r : Registry)
    (documents : List Document) : List Bag :=
  documents.map fun d => (Bag.new o.limit).addAll (d.resolve r).diagnostics

def withResolved (o : CompilationOptions) (c : Compilation) : Compilation :=
  stopOnErrors <|
    match c.registry with
    | none => c
    | some r => { c with
      documents := c.documents.map fun d => (d.resolve r).document
      resolutions := c.documents.map fun d => (d.resolve r).imports
      bag := mergeBags c.bag (resolvedBags o r c.documents) }

theorem filterMap_eq_filterMap
    {α β γ : Type} {f : α → Option γ} {g : β → Option γ} {xs : List α}
    {ys : List β} (h : xs.map f = ys.map g) :
    xs.filterMap f = ys.filterMap g := by
  calc
    xs.filterMap f
        = (xs.map f).filterMap id := by
          rw [List.filterMap_map]
          rfl
    _ = ys.filterMap g := by
          rw [h, List.filterMap_map]
          rfl

theorem filterMap_eq_of_map_eq
    {α β : Type} {f : α → Option β} {xs : List α} {ys : List β}
    (h : xs.map f = ys.map some) :
    xs.filterMap f = ys :=
  (filterMap_eq_filterMap h).trans List.filterMap_some

theorem filterMap_range_map
    {α β : Type} (work : α → β) (xs : List α) :
    ((List.range xs.length).map fun i => xs.toArray[i]?.map work).filterMap id =
      xs.map work := by
  have hrange : (List.range xs.length).map (fun i => xs.toArray[i]?.map work) =
      (xs.map work).map some := by
    apply List.ext_getElem
    · simp
    · intro i hi _
      have hi : i < xs.length := by simpa using hi
      simp [hi]
  rw [List.filterMap_map]
  exact filterMap_eq_of_map_eq hrange

theorem bare_resolve (o : CompilationOptions) (c : Compilation) :
    (resolve o c).bare = withResolved o c.bare := by
  rw [resolve, bare_stopOnErrors, bare_phase, withResolved]
  congr 1
  cases hregistry : c.registry with
  | none => simp [watched, bare, hregistry]
  | some r =>
    have hregistry' : (c.watched (.atStart "resolve" c)).registry = some r :=
      hregistry
    have hbare : c.bare.registry = some r := hregistry
    rw [hbare]
    dsimp only
    rw [hregistry']
    dsimp only
    rw [map_join_fillSlots, foldl_traceDocument_eq]
    dsimp only
    rw [filterMap_range_map, List.map_map, List.map_map, List.map_map,
      hregistry']
    rfl

/-! ## Laying out and connecting -/

def withLayout (c : Compilation) : Compilation :=
  { c with
    documents := (layOutAll c.documents).1
    failure := (layOutAll c.documents).2 }

theorem bare_layOut (c : Compilation) :
    c.layOut.bare = c.bare.withLayout :=
  rfl

def importNodes (files : Source.Files) (documents : List Document)
    (resolutions : List ResolvedImports) :
    List GraphNode :=
  (List.zipWith (graphDocument files) documents resolutions).map fun d =>
    { document := d }

def digested (nodes : List GraphNode) : List GraphDocument :=
  let documents := nodes.map GraphNode.document
  let names := ImportGraph.nameAll documents
  let g := ImportGraph.build names nodes
  documents.map fun d =>
    { d with
      digest := ImportGraph.digestOf (g.digests g.waves) (names.idxOf d.path) }

/-- What is found when the graph is built. -/
def graphFindings (nodes : List GraphNode) : List Diagnostic :=
  let names := ImportGraph.nameAll (nodes.map GraphNode.document)
  let g := ImportGraph.build names nodes
  ImportGraph.duplicates names [] nodes ++ g.cycleWarnings g.waves

def withGraph (c : Compilation) : Compilation :=
  let nodes := importNodes c.files c.documents c.resolutions
  { c with
    graph := digested nodes
    emission := ImportGraph.emitted nodes
    bag := c.bag.addAll (graphFindings nodes) }

theorem map_document_importNodes
    (files : Source.Files) (documents : List Document)
    (resolutions : List ResolvedImports) :
    (importNodes files documents resolutions).map GraphNode.document =
      List.zipWith (graphDocument files) documents resolutions := by
  rw [importNodes, List.map_map]
  exact List.map_id _

theorem bare_connect (c : Compilation) :
    c.connect.bare = c.bare.withGraph := by
  rw [connect, bare_phase, withGraph]
  dsimp only
  rw [digested, graphFindings, map_document_importNodes]
  rfl

/-! ## The whole run -/

/-- The steps that are left when all files are loaded and a result has been
looked for. -/
def laterSteps (o : CompilationOptions) : List (Compilation → Compilation) :=
  [unlessRecalled (withChecked o), withRegistry o,
    unlessRecalled (withResolved o), unlessRecalled withLayout,
    unlessRecalled withGraph, unlessRecalled (withKept o)]

def bareSteps (o : CompilationOptions) : List (Compilation → Compilation) :=
  withFound o :: withFiles o :: withRecalled o :: laterSteps o

def run (o : CompilationOptions) (store : FileSystem) (tracer : Trace.Tracer)
    (parent : UInt64) : Compilation :=
  (steps o).foldl (fun c step => unlessFailed step c)
    (start o store tracer parent)

/-- A compilation before its first step, when nobody watches. -/
def bareStart (o : CompilationOptions) (store : FileSystem) : Compilation where
  store := store
  files := ({} : Source.Files).withBase o.root
  bag := Bag.new o.limit

def bareRun (o : CompilationOptions) (store : FileSystem) : Compilation :=
  (bareSteps o).foldl (fun c step => unlessFailed step c) (bareStart o store)

/-- A view of compilations in which one can see whether they failed and whether
they recalled a result. -/
structure Showing (view : Compilation → Compilation) : Prop where
  failure : ∀ c, (view c).failure = c.failure
  cacheHit : ∀ c, (view c).cacheHit = c.cacheHit

namespace Showing

variable {view : Compilation → Compilation} (h : Showing view)

include h

theorem unlessFailed
    {step step' : Compilation → Compilation}
    (hstep : ∀ c, view (step c) = step' (view c)) (c : Compilation) :
    view (unlessFailed step c) = unlessFailed step' (view c) := by
  unfold Compilation.unlessFailed
  rw [apply_ite view, hstep, h.failure]

theorem unlessRecalled
    {step step' : Compilation → Compilation}
    (hstep : ∀ c, view (step c) = step' (view c)) (c : Compilation) :
    view (unlessRecalled step c) = unlessRecalled step' (view c) := by
  unfold Compilation.unlessRecalled
  rw [apply_ite view, hstep, h.cacheHit]

/-- What holds of every step, seen through the view, holds of a run. -/
theorem foldl
    {steps steps' : List (Compilation → Compilation)}
    (hsteps : List.Forall₂
      (fun step step' => ∀ c, view (step c) = step' (view c)) steps steps')
    (c : Compilation) :
    view (steps.foldl (fun c step => Compilation.unlessFailed step c) c) =
      steps'.foldl (fun c step => Compilation.unlessFailed step c)
      (view c) := by
  induction hsteps generalizing c with
  | nil => rfl
  | cons hstep _ ih =>
    rw [List.foldl_cons, ih, h.unlessFailed hstep, List.foldl_cons]

end Showing

theorem showing_bare :
    Showing bare :=
  ⟨fun _ => rfl, fun _ => rfl⟩

theorem forall₂_bareSteps (o : CompilationOptions) :
    List.Forall₂ (fun step step' => ∀ c, (step c).bare = step' c.bare) (steps o)
    (bareSteps o) :=
  .cons (bare_discover o) <| .cons (bare_load o) <| .cons (bare_restore o) <|
    .cons (showing_bare.unlessRecalled (bare_parse o)) <|
    .cons (bare_register o) <|
    .cons (showing_bare.unlessRecalled (bare_resolve o)) <|
    .cons (showing_bare.unlessRecalled bare_layOut) <|
    .cons (showing_bare.unlessRecalled bare_connect) <|
    .cons (showing_bare.unlessRecalled (bare_remember o)) .nil

/-- Those who watch see a compilation that goes on as if nobody did. -/
theorem bare_run
    (o : CompilationOptions) (store : FileSystem) (tracer : Trace.Tracer)
    (parent : UInt64) :
    (run o store tracer parent).bare = bareRun o store :=
  showing_bare.foldl (forall₂_bareSteps o) _

end Compilation

end ProtocolCorpus
