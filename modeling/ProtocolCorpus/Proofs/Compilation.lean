import ProtocolCorpus.Proofs.Bag
import ProtocolCorpus.Proofs.Phases

/-!
# What a compilation goes through

A compilation that comes to its end has gone through all of its phases. One that
does not take its result from a cache ends in a state that is made of the loaded
files, the registry and the documents as they are laid out; one that does has
only built a registry.
-/

namespace ProtocolCorpus

namespace Compilation

variable {c c' : Compilation} {step : Compilation → Compilation}
  {steps : List (Compilation → Compilation)} {o : CompilationOptions}
  {ids : List Text}
  {store : FileSystem} {r : Registry}

/-! ## Stopping -/

theorem stopOnErrors_of_success (h : c.stopOnErrors.failure = none) :
    c.stopOnErrors = c ∧ c.failure = none ∧ c.bag.hasErrors = false := by
  unfold stopOnErrors at h ⊢
  split at h
  next => cases h
  next hstop =>
    have hclean : c.bag.hasErrors = false := by simpa [h] using hstop
    rw [if_neg hstop]
    exact ⟨rfl, h, hclean⟩

/-- The steps lead from one compilation to another, and none of them fails. -/
inductive Passes : List (Compilation → Compilation) → Compilation →
    Compilation → Prop
  | done (c : Compilation) : Passes [] c c
  | step {step : Compilation → Compilation}
      {steps : List (Compilation → Compilation)}
      {c c' : Compilation} (next : Compilation) (heq : step c = next)
      (hsuccess : (step c).failure = none) (hrest : Passes steps next c') :
      Passes (step :: steps) c c'

theorem failure_eq_none_of_unlessFailed
    (h : (unlessFailed step c).failure = none) :
    c.failure = none := by
  unfold unlessFailed at h
  split at h
  next => exact h
  next hfailed => simpa using hfailed

theorem failure_eq_none_of_foldl
    (h : (steps.foldl (fun c step => unlessFailed step c) c).failure = none) :
    c.failure = none := by
  induction steps generalizing c with
  | nil => exact h
  | cons step steps ih => exact failure_eq_none_of_unlessFailed (ih h)

/-- A run that did not fail has gone through all of its steps. -/
theorem passes_of_success
    (h : (steps.foldl (fun c step => unlessFailed step c) c).failure = none) :
    Passes steps c (steps.foldl (fun c step => unlessFailed step c) c) := by
  induction steps generalizing c with
  | nil => exact .done c
  | cons step steps ih =>
    have hnext : (unlessFailed step c).failure = none :=
      failure_eq_none_of_foldl h
    have hstep : unlessFailed step c = step c := by
      rw [unlessFailed, failure_eq_none_of_unlessFailed hnext]
      rfl
    exact .step (unlessFailed step c) hstep.symm (hstep ▸ hnext) (ih h)

theorem Passes.uncons (h : Passes (step :: steps) c c') :
    (step c).failure = none ∧ Passes steps (step c) c' := by
  rcases h with _ | ⟨_, rfl, hsuccess, hrest⟩
  exact ⟨hsuccess, hrest⟩

theorem Passes.uncons_of_not_cacheHit
    (h : Passes (unlessRecalled step :: steps) c c')
    (hhit : c.cacheHit = false) :
    (step c).failure = none ∧ Passes steps (step c) c' := by
  have hstep : unlessRecalled step c = step c := by
    rw [unlessRecalled, hhit]
    rfl
  rw [← hstep]
  exact h.uncons

/-! ## Finding and loading -/

theorem withFound_of_success (h : (withFound o c).failure = none) :
    ∃ ids, Corpus.discover c.store o.root o.patterns = .ok ids ∧
    withFound o c = { c with found := ids } := by
  unfold withFound at h ⊢
  cases hfound : Corpus.discover c.store o.root o.patterns with
  | error e =>
    rw [hfound] at h
    cases h
  | ok ids =>
    rw [hfound] at h
    dsimp only at h ⊢
    split at h
    next => cases h
    next hsome =>
      rw [if_neg hsome]
      exact ⟨ids, rfl, rfl⟩

/-- The file that is made of what is read, when it is the one with the given
number. -/
def loadedFile (n : Nat) (path raw : Text) : Source.File :=
  let (unmarked, hadMark) := Source.dropMark raw
  let (content, hadReturns) := Source.dropReturns unmarked
  { id := UInt32.ofNat n
    path := Path.clean path
    content := content
    newlines := Source.newlinesFrom 0 content
    digest := Digest.sha256 content
    treatment :=
      ⟨(if hadMark then 2 else 0) ||| (if hadReturns then 4 else 0)⟩ }

theorem load_eq_push (s : Source.Files) (path raw : Text) :
    s.load path raw =
    ({ s with files := s.files.push (loadedFile s.files.size path raw) },
      loadedFile s.files.size path raw) :=
  rfl

/-- The files of documents, given what is read for each. -/
def fileRow (root : Text) (ids raws : List Text) : List Source.File :=
  (ids.zip raws).zipIdx.map fun x =>
    loadedFile x.2 (Path.join [root, x.1.1]) x.1.2

theorem fileRow_concat {root : Text} {raws : List Text}
    (hlength : raws.length = ids.length) (id raw : Text) :
    fileRow root (ids ++ [id]) (raws ++ [raw]) =
      fileRow root ids raws ++
      [loadedFile ids.length (Path.join [root, id]) raw] := by
  rw [fileRow, List.zip_append hlength.symm, List.zipIdx_append,
    List.map_append]
  simp [fileRow, hlength]

theorem length_fileRow {root : Text} {raws : List Text}
    (hlength : raws.length = ids.length) :
    (fileRow root ids raws).length = ids.length := by
  simp [fileRow, hlength]

/-- The compilation with the files of documents, given what is read for each. -/
def withRow (root : Text) (c : Compilation) (ids raws : List Text) :
    Compilation :=
  { c with
    files := { c.files with files := (fileRow root ids raws).toArray }
    loaded := (List.range ids.length).map UInt32.ofNat }

/-- The files of the first documents are loaded, unless an error was reported.
-/
def Loading (o : CompilationOptions) (content : Text → Except FileError Text)
    (before : Compilation)
    (ids : List Text) (c : Compilation) : Prop :=
  c.bag.hasErrors = true ∨
    ∃ raws, ids.map content = raws.map Except.ok ∧
    c = withRow o.root before ids raws

theorem Loading.withFile {content : Text → Except FileError Text}
    {before : Compilation} (h : Loading o content before ids c)
    (hroom : before.bag.hasRoom = true) (id : Text) :
    Loading o content before (ids ++ [id]) (withFile o content c id) := by
  unfold Compilation.withFile
  cases hcontent : content id with
  | error e =>
    left
    rcases h with herrors | ⟨raws, -, rfl⟩
    · exact Bag.hasErrors_add herrors
    · have hadded : (before.bag.add (.error .loadFailed {} {}
          ("failed to load " ++ id.quoted ++ ": " ++ e.message))).hasErrors =
          true := by
        rw [Bag.hasErrors_eq_any, Bag.add_eq_push hroom]
        simp [Diagnostic.error, Diagnostic.isError]
      exact hadded
  | ok raw =>
    rcases h with herrors | ⟨raws, hraws, rfl⟩
    · exact .inl herrors
    · have hlength : raws.length = ids.length := by
        simpa using (congrArg List.length hraws).symm
      refine .inr ⟨raws ++ [raw], by simp [hraws, hcontent], ?_⟩
      dsimp only
      rw [load_eq_push, withRow, withRow, fileRow_concat hlength]
      simp [length_fileRow hlength, List.range_succ, loadedFile]

theorem Loading.foldl_withFile {content : Text → Except FileError Text}
    {before : Compilation}
    {done : List Text} (h : Loading o content before done c)
    (hroom : before.bag.hasRoom = true) (ids : List Text) :
    Loading o content before (done ++ ids)
      (ids.foldl (Compilation.withFile o content) c) := by
  induction ids generalizing done c with
  | nil =>
    rw [List.append_nil]
    exact h
  | cons id ids ih =>
    rw [List.append_cons]
    exact ih (h.withFile hroom id)

theorem withFiles_of_success (hroom : c.bag.hasRoom = true)
    (hfiles : c.files.files = #[])
    (hloaded : c.loaded = []) (h : (withFiles o c).failure = none) :
    ∃ raws, c.found.map (contentOf o c.store) = raws.map Except.ok ∧
      withFiles o c = withRow o.root c c.found raws := by
  obtain ⟨hsame, -, hclean⟩ := stopOnErrors_of_success h
  rw [withFiles, hsame]
  have hstart : Loading o (contentOf o c.store) c [] c := by
    refine .inr ⟨[], rfl, ?_⟩
    have hempty : c.files = { c.files with files := #[] } := by rw [← hfiles]
    have hnone : c = { c with
        files := { c.files with files := #[] }, loaded := [] } := by
      rw [← hempty, ← hloaded]
    exact hnone
  rcases hstart.foldl_withFile hroom c.found with herrors | ⟨raws, hraws, hdone⟩
  · rw [hclean] at herrors
    cases herrors
  · exact ⟨raws, hraws, hdone⟩

/-- The documents that were found have their files, in order. -/
def Filed (o : CompilationOptions) (store : FileSystem)
    (c : Compilation) : Prop :=
  ∃ raws, c.found.map (contentOf o store) = raws.map Except.ok ∧
    c.files.files.toList = fileRow o.root c.found raws ∧
    c.loaded = (List.range c.found.length).map UInt32.ofNat

/-- What finding and loading documents leads to. -/
structure Loaded (o : CompilationOptions) (store : FileSystem)
    (c : Compilation) : Prop where
  discovered : Corpus.discover store o.root o.patterns = .ok c.found
  filed : Filed o store c
  store_eq : c.store = store
  bag_eq : c.bag = Bag.new o.limit
  cacheHit : c.cacheHit = false

def loadedState (o : CompilationOptions) (store : FileSystem) : Compilation :=
  withFiles o (withFound o (bareStart o store))

theorem loaded_of_success (hfound : (withFound o (bareStart o store)).failure =
    none)
    (hloaded : (loadedState o store).failure = none) :
    Loaded o store (loadedState o store) := by
  have hroom : (bareStart o store).bag.hasRoom = true :=
    decide_eq_true (Bag.sound_new o.limit).limit_pos
  obtain ⟨ids, hids, hstate⟩ := withFound_of_success hfound
  unfold loadedState at hloaded ⊢
  rw [hstate] at hloaded ⊢
  obtain ⟨raws, hraws, hdone⟩ :=
    withFiles_of_success (by exact hroom) rfl rfl hloaded
  rw [hdone]
  exact ⟨hids, ⟨raws, hraws, rfl, rfl⟩, rfl, rfl, rfl⟩

theorem Filed.length_loaded (h : Filed o store c) :
    c.loaded.length = c.found.length := by
  obtain ⟨raws, -, -, hloaded⟩ := h
  simp [hloaded]

/-- Numbers come around, but none is beyond the files. -/
theorem Filed.lt_size_of_mem_loaded (h : Filed o store c) {id : UInt32}
    (hid : id ∈ c.loaded) :
    id.toNat < c.files.files.size := by
  obtain ⟨raws, hraws, hfiles, hloaded⟩ := h
  have hlength : raws.length = c.found.length := by
    simpa using (congrArg List.length hraws).symm
  rw [hloaded, List.mem_map] at hid
  obtain ⟨n, hn, rfl⟩ := hid
  rw [← Array.length_toList, hfiles, length_fileRow hlength,
    UInt32.toNat_ofNat']
  exact Nat.lt_of_le_of_lt (Nat.mod_le _ _) (List.mem_range.1 hn)

theorem Filed.map_fst_sources (h : Filed o store c) :
    c.sources.map Prod.fst = c.found := by
  have hsource : (List.range c.found.length).map
      (fun i => (c.source? i).map Prod.fst) =
      c.found.map some := by
    apply List.ext_getElem
    · simp
    · intro i hi _
      have hi : i < c.found.length := by simpa using hi
      have hi' : i < c.loaded.length := h.length_loaded ▸ hi
      have hfile : UInt32.toNat c.loaded[i] < c.files.files.size :=
        h.lt_size_of_mem_loaded (List.getElem_mem hi')
      simp [source?, hi, hi', Source.Files.get?, hfile]
  rw [sources, List.map_filterMap]
  exact filterMap_eq_of_map_eq hsource

/-! ## What is made of the loaded files -/

theorem withChecked_of_success (h : (withChecked o c).failure = none) :
    withChecked o c = { c with
      documents := checked o c.sources
      bag := mergeBags c.bag (checkedBags o c.sources) } := by
  obtain ⟨hsame, hfailure, -⟩ := stopOnErrors_of_success h
  rw [withChecked, hsame]
  split at hfailure
  next => cases hfailure
  next hactive => exact if_neg hactive

theorem withRegistry_of_success (h : (withRegistry o c).failure = none) :
    ∃ r, Registry.build o.naming c.documents = .ok r ∧ withRegistry o c =
    { c with registry := some r } := by
  unfold withRegistry at h ⊢
  cases hbuild : Registry.build o.naming c.documents with
  | error e =>
    rw [hbuild] at h
    cases h
  | ok r => exact ⟨r, rfl, rfl⟩

theorem withResolved_of_success (hr : c.registry = some r)
    (h : (withResolved o c).failure = none) :
    withResolved o c = { c with
        documents := c.documents.map fun d => (d.resolve r).document
        resolutions := c.documents.map fun d => (d.resolve r).imports
        bag := mergeBags c.bag (resolvedBags o r c.documents) } ∧
      (mergeBags c.bag (resolvedBags o r c.documents)).hasErrors = false := by
  obtain ⟨hsame, -, hclean⟩ := stopOnErrors_of_success h
  rw [withResolved, hsame]
  rw [hr] at hclean
  exact ⟨by rw [hr], hclean⟩

theorem withLayout_of_success (h : c.withLayout.failure = none) :
    ∃ documents, layOutAll c.documents = (documents, none) ∧
      c.withLayout = { c with documents := documents, failure := none } :=
  ⟨(layOutAll c.documents).1, Prod.ext rfl h, by rw [← h]; rfl⟩

/-- The state at the end of a compilation, given the one in which all files are
loaded, the registry and the documents as they are laid out. -/
def finishedState (o : CompilationOptions) (c : Compilation) (r : Registry)
    (documents : List Document) :
    Compilation :=
  let resolutions := (checked o c.sources).map fun d => (d.resolve r).imports
  let nodes := importNodes c.files documents resolutions
  { c with
    registry := some r
    documents := documents
    resolutions := resolutions
    graph := digested nodes
    emission := ImportGraph.emitted nodes
    bag := (mergeBags (mergeBags c.bag (checkedBags o c.sources))
      (resolvedBags o r (checked o c.sources))).addAll (graphFindings nodes)
    failure := none }

/-- What is known of a registry and of laid out documents at the end of a
compilation. -/
structure Made (o : CompilationOptions) (c : Compilation) (r : Registry)
    (documents : List Document) :
    Prop where
  registered : Registry.build o.naming (checked o c.sources) = .ok r
  /-- No error is left in the bag that all findings were merged into. -/
  clean : (mergeBags (mergeBags c.bag (checkedBags o c.sources))
    (resolvedBags o r (checked o c.sources))).hasErrors = false
  laidOut :
    layOutAll ((checked o c.sources).map fun d => (d.resolve r).document) =
    (documents, none)

/-- The steps that follow when all files are loaded and nothing was recalled. -/
theorem made_of_passes (hhit : c.cacheHit = false)
    (h : Passes (laterSteps o) c c') :
    ∃ r documents, Made o c r documents ∧
      c' = withKept o (finishedState o c r documents) := by
  obtain ⟨hchecked, h⟩ := h.uncons_of_not_cacheHit hhit
  rw [withChecked_of_success hchecked] at h
  obtain ⟨hregistered, h⟩ := h.uncons
  obtain ⟨r, hbuild, hregistry⟩ := withRegistry_of_success hregistered
  rw [hregistry] at h
  obtain ⟨hresolved, h⟩ := h.uncons_of_not_cacheHit hhit
  obtain ⟨hresolutions, hclean⟩ := withResolved_of_success rfl hresolved
  rw [hresolutions] at h
  obtain ⟨hlayout, h⟩ := h.uncons_of_not_cacheHit hhit
  obtain ⟨documents, hlaidOut, hdocuments⟩ := withLayout_of_success hlayout
  rw [hdocuments] at h
  obtain ⟨-, h⟩ := h.uncons_of_not_cacheHit hhit
  obtain ⟨-, h⟩ := h.uncons_of_not_cacheHit hhit
  cases h
  exact ⟨r, documents, ⟨hbuild, hclean, hlaidOut⟩, rfl⟩

/-! ## The whole run -/

theorem unlessFailed_unlessRecalled_of_cacheHit (hhit : c.cacheHit = true)
    (step : Compilation → Compilation) :
    unlessFailed (unlessRecalled step) c = c := by
  rw [unlessFailed, unlessRecalled, hhit]
  exact ite_self _

theorem cacheHit_withRegistry (o : CompilationOptions) (c : Compilation) :
    (withRegistry o c).cacheHit = c.cacheHit := by
  unfold withRegistry
  split
  next => rfl
  next => rfl

theorem cacheHit_unlessFailed_withRegistry (o : CompilationOptions)
    (c : Compilation) :
    (unlessFailed (withRegistry o) c).cacheHit = c.cacheHit := by
  unfold unlessFailed
  split
  next => rfl
  next => exact cacheHit_withRegistry o c

/-- A result that is recalled stands for everything but the registry. -/
theorem foldl_laterSteps_of_cacheHit (hhit : c.cacheHit = true) :
    (laterSteps o).foldl (fun c step => unlessFailed step c) c =
    unlessFailed (withRegistry o) c := by
  have hregistered : (unlessFailed (withRegistry o) c).cacheHit = true := by
    rw [cacheHit_unlessFailed_withRegistry, hhit]
  simp only [laterSteps, List.foldl_cons, List.foldl_nil,
    unlessFailed_unlessRecalled_of_cacheHit hhit,
    unlessFailed_unlessRecalled_of_cacheHit hregistered]

theorem loaded_of_bareRun (h : (bareRun o store).failure = none) :
    (withFound o (bareStart o store)).failure = none ∧
    (loadedState o store).failure = none ∧
      Passes (laterSteps o) (withRecalled o (loadedState o store))
      (bareRun o store) := by
  obtain ⟨hfound, hpasses⟩ := (passes_of_success h).uncons
  obtain ⟨hloaded, hpasses⟩ := hpasses.uncons
  exact ⟨hfound, hloaded, hpasses.uncons.2⟩

theorem bareRun_eq_of_loaded
    (hfound : (withFound o (bareStart o store)).failure = none)
    (hloaded : (loadedState o store).failure = none) :
    bareRun o store = (laterSteps o).foldl (fun c step => unlessFailed step c)
      (withRecalled o (loadedState o store)) := by
  have hfirst : unlessFailed (withFound o) (bareStart o store) =
    withFound o (bareStart o store) := rfl
  have hsecond : unlessFailed (withFiles o) (withFound o (bareStart o store)) =
      loadedState o store := by
    rw [unlessFailed, hfound]
    rfl
  have hthird : unlessFailed (withRecalled o) (loadedState o store) =
      withRecalled o (loadedState o store) := by
    rw [unlessFailed, hloaded]
    rfl
  rw [bareRun, bareSteps, List.foldl_cons, List.foldl_cons, List.foldl_cons,
    hfirst, hsecond, hthird]

theorem withRecalled_eq {e? : Option CacheEntry}
    (h : recalled? o c.store c.files = e?) :
    withRecalled o c = (e?.map (withEntry c)).getD c := by
  rw [withRecalled, h]

theorem made_of_miss (h : (bareRun o store).failure = none)
    (hmiss : recalled? o store (loadedState o store).files = none) :
    Loaded o store (loadedState o store) ∧
      ∃ r documents, Made o (loadedState o store) r documents ∧
      bareRun o store =
      withKept o (finishedState o (loadedState o store) r documents) := by
  obtain ⟨hfound, hloaded, hpasses⟩ := loaded_of_bareRun h
  have hstate := loaded_of_success hfound hloaded
  have hnothing : recalled? o (loadedState o store).store
      (loadedState o store).files = none := by
    rw [hstate.store_eq, hmiss]
  rw [withRecalled_eq hnothing] at hpasses
  exact ⟨hstate, made_of_passes hstate.cacheHit hpasses⟩

theorem finish_eq (o : CompilationOptions) (c : Compilation) :
    ∃ bag tracer, finish o c = { c with bag, tracer } := by
  unfold finish
  dsimp only
  split
  next => exact ⟨_, _, rfl⟩
  next => exact ⟨_, _, rfl⟩

theorem bare_compile
    (o : CompilationOptions) (store : FileSystem) (tracer : Trace.Tracer)
    (parent : UInt64) :
    ∃ bag, (compile o store tracer parent).bare =
      { bareRun (complete o) store with bag } := by
  obtain ⟨bag, tracer', hfinish⟩ :=
    finish_eq (complete o) (run (complete o) store tracer parent)
  refine ⟨bag, ?_⟩
  rw [← bare_run (complete o) store tracer parent]
  exact congrArg bare hfinish

/-! ## What comes out -/

def results (c : Compilation) :
    List Document × List ResolvedImports × List GraphDocument × List Text :=
  (c.documents, c.resolutions, c.graph, c.emission)

/-- The compilation reports these findings, and besides at most its timings. -/
def Reports (c : Compilation) (ds : List Diagnostic) : Prop :=
  ∃ timings : Option Diagnostic, c.bag.items.toList = ds ++ timings.toList ∧
    ∀ d ∈ timings, d.code = .timings ∧ c.timer.isSome = true

theorem exists_toList_forceInto (bag : Bag) (d : Diagnostic) :
    ∃ n, (forceInto bag d).items.toList = bag.items.toList ++ [d].take n := by
  rw [forceInto]
  cases hroom : bag.hasRoom with
  | true =>
    rw [Bag.offer_eq_push hroom]
    exact ⟨1, Array.toList_push⟩
  | false =>
    have hmerged := Bag.toList_addAll
      { bag with
        limit := max bag.limit (min (bag.items.size + 1) Bag.maxLimit) } [d]
    rw [Bag.offer_eq_self hroom]
    exact ⟨_, hmerged⟩

theorem reports_finish (o : CompilationOptions) (c : Compilation) :
    Reports (finish o c) c.bag.items.toList := by
  unfold finish
  cases htimer : c.timer with
  | none => exact ⟨none, by simp, by simp⟩
  | some t =>
    obtain ⟨n, hn⟩ :=
      exists_toList_forceInto c.bag (timingDiagnostic o c t.report)
    cases n with
    | zero => exact ⟨none, hn, by simp⟩
    | succ n =>
      rw [List.take_succ_cons, List.take_nil] at hn
      refine ⟨some (timingDiagnostic o c t.report), hn, ?_⟩
      intro d hd
      cases hd
      exact ⟨rfl, rfl⟩

theorem reports_compile
    (o : CompilationOptions) (store : FileSystem) (tracer : Trace.Tracer)
    (parent : UInt64) :
    Reports (compile o store tracer parent)
      (bareRun (complete o) store).bag.items.toList := by
  rw [← bare_run (complete o) store tracer parent]
  exact reports_finish (complete o) (run (complete o) store tracer parent)

/-- The compilation comes to the end of a run: it fails for the same reason or
not at all, hands on the same results and reports the same findings. -/
structure EndsLike (c ran : Compilation) : Prop where
  store : c.store = ran.store
  files : c.files = ran.files
  cacheHit : c.cacheHit = ran.cacheHit
  failure : c.failure = ran.failure
  results : results c = results ran
  registry : c.registry = ran.registry
  findings : Reports c ran.bag.items.toList

theorem endsLike_self (c : Compilation) :
    EndsLike c c :=
  ⟨rfl, rfl, rfl, rfl, rfl, rfl, none, by simp, by simp⟩

theorem endsLike_bareRun
    (o : CompilationOptions) (store : FileSystem) (tracer : Trace.Tracer)
    (parent : UInt64) :
    EndsLike (compile o store tracer parent) (bareRun (complete o) store) := by
  obtain ⟨bag, hcompile⟩ := bare_compile o store tracer parent
  have hbare : EndsLike (compile o store tracer parent).bare
      { bareRun (complete o) store with bag } := by
    rw [hcompile]
    exact endsLike_self _
  exact ⟨hbare.store, hbare.files, hbare.cacheHit, hbare.failure, hbare.results,
    hbare.registry, reports_compile o store tracer parent⟩

/-- The compilations come to the same end. -/
structure SameOutcome (c c' : Compilation) : Prop where
  failure : c.failure = c'.failure
  results : results c = results c'
  registry : c.registry = c'.registry
  findings : ∃ ds, Reports c ds ∧ Reports c' ds

theorem EndsLike.sameOutcome {ran : Compilation} (h : EndsLike c ran)
    (h' : EndsLike c' ran) :
    SameOutcome c c' :=
  ⟨h.failure.trans h'.failure.symm, h.results.trans h'.results.symm,
    h.registry.trans h'.registry.symm, _, h.findings, h'.findings⟩

/-! ## Compilations without a cache -/

/-- What a compilation without a cache has done when all is resolved, with the
registry it built. -/
structure Completed (o : CompilationOptions) (store : FileSystem)
    (c : Compilation) (r : Registry) :
    Prop where
  discovered : Corpus.discover store o.root o.patterns = .ok c.found
  /-- Every document that was found has its file. -/
  sourced : c.sources.map Prod.fst = c.found
  registered : Registry.build o.naming (checked o c.sources) = .ok r
  registry_eq : c.registry = some r
  /-- No error is left in the bag that all findings were merged into. -/
  clean : (mergeBags (mergeBags (Bag.new o.limit) (checkedBags o c.sources))
    (resolvedBags o r (checked o c.sources))).hasErrors = false
  cacheHit : c.cacheHit = false

/-- What a compilation without a cache has done when it comes to its end. -/
structure Finished (o : CompilationOptions) (store : FileSystem)
    (c : Compilation) (r : Registry) :
    Prop extends Completed o store c r where
  filed : Filed o store c
  laidOut :
    layOutAll ((checked o c.sources).map fun d => (d.resolve r).document) =
    (c.documents, none)
  resolutions_eq : c.resolutions = (checked o c.sources).map fun d =>
    (d.resolve r).imports
  graph_eq : c.graph = digested (importNodes c.files c.documents c.resolutions)
  emission_eq : c.emission =
    ImportGraph.emitted (importNodes c.files c.documents c.resolutions)

theorem finished_of_made {documents : List Document}
    (hloaded : Loaded o store c) (hmade : Made o c r documents) :
    Finished o store (finishedState o c r documents) r := by
  have hclean := hmade.clean
  rw [hloaded.bag_eq] at hclean
  exact ⟨⟨hloaded.discovered, hloaded.filed.map_fst_sources, hmade.registered,
    rfl, hclean, hloaded.cacheHit⟩, hloaded.filed, hmade.laidOut, rfl, rfl, rfl⟩

/-- Who watches and what is in the bag does not matter here. -/
theorem Finished.of_bare (h : Finished o store c r) {bag : Bag}
    (heq : c'.bare = { c with bag }) :
    Finished o store c' r := by
  have hbare : Finished o store c'.bare r := by
    rw [heq]
    exact ⟨⟨h.discovered, h.sourced, h.registered, h.registry_eq, h.clean,
      h.cacheHit⟩, h.filed, h.laidOut,
      h.resolutions_eq, h.graph_eq, h.emission_eq⟩
  exact ⟨⟨hbare.discovered, hbare.sourced, hbare.registered, hbare.registry_eq,
    hbare.clean, hbare.cacheHit⟩,
    hbare.filed, hbare.laidOut, hbare.resolutions_eq, hbare.graph_eq,
    hbare.emission_eq⟩

/-- A compilation without a cache that does not fail has done all there is to
do. -/
theorem finished_of_success {tracer : Trace.Tracer} {parent : UInt64}
    (hcache : o.cache = none)
    (h : (compile o store tracer parent).failure = none) :
    ∃ r, Finished (complete o) store (compile o store tracer parent) r := by
  obtain ⟨bag, hcompile⟩ := bare_compile o store tracer parent
  have hsuccess : (bareRun (complete o) store).failure = none := by
    calc
      (bareRun (complete o) store).failure
          = (compile o store tracer parent).bare.failure := by rw [hcompile]
      _ = none := h
  have hmiss : recalled? (complete o) store
      (loadedState (complete o) store).files = none := by
    rw [recalled?, show (complete o).cache = none from hcache]
    rfl
  obtain ⟨hloaded, r, documents, hmade, hrun⟩ := made_of_miss hsuccess hmiss
  have hkept : bareRun (complete o) store =
      finishedState (complete o) (loadedState (complete o) store) r
      documents := by
    rw [hrun, withKept, show (complete o).cache = none from hcache]
  rw [hkept] at hcompile
  exact ⟨r, (finished_of_made hloaded hmade).of_bare hcompile⟩

theorem completed_of_success {tracer : Trace.Tracer} {parent : UInt64}
    (hcache : o.cache = none)
    (h : (compile o store tracer parent).failure = none) :
    ∃ r, Completed (complete o) store (compile o store tracer parent) r := by
  obtain ⟨r, hfinished⟩ := finished_of_success hcache h
  exact ⟨r, hfinished.toCompleted⟩

end Compilation

end ProtocolCorpus
