import ProtocolCorpus.Proofs.CacheStore
import ProtocolCorpus.Proofs.Headings

/-!
# Compilations that find their result in a cache

A compilation keeps its result, and a later one of the same corpus takes it from
there, unless something went wrong with the cache. Either way the later
compilation hands on the same results and the same registry. Only the findings
can differ: those of the first are merged from many bags and may outnumber the
limit, while those that are recalled go into one bag and stop there.
-/

namespace ProtocolCorpus

namespace Compilation

variable {o : CompilationOptions} {store store' : FileSystem}
  {c ran ran' : Compilation}
  {r : Registry}

/-! ## Compilations without their file system -/

/-- The compilation without its file system. -/
def storeless (c : Compilation) : Compilation :=
  { c with store := {} }

theorem showing_storeless :
    Showing storeless :=
  ⟨fun _ => rfl, fun _ => rfl⟩

theorem storeless_stopOnErrors (c : Compilation) :
    c.stopOnErrors.storeless = c.storeless.stopOnErrors :=
  apply_ite storeless _ _ _

theorem storeless_withChecked (o : CompilationOptions) (c : Compilation) :
    (withChecked o c).storeless = withChecked o c.storeless := by
  rw [withChecked, storeless_stopOnErrors, apply_ite storeless]
  rfl

theorem storeless_withRegistry (o : CompilationOptions) (c : Compilation) :
    (withRegistry o c).storeless = withRegistry o c.storeless := by
  have hdocuments : c.storeless.documents = c.documents := rfl
  unfold withRegistry
  rw [hdocuments]
  cases Registry.build o.naming c.documents with
  | error e => rfl
  | ok r => rfl

theorem storeless_withResolved (o : CompilationOptions) (c : Compilation) :
    (withResolved o c).storeless = withResolved o c.storeless := by
  have hregistry : c.storeless.registry = c.registry := rfl
  rw [withResolved, storeless_stopOnErrors, withResolved, hregistry]
  congr 1
  split
  next => rfl
  next => rfl

theorem storeless_withKept (o : CompilationOptions) (c : Compilation) :
    (withKept o c).storeless = c.storeless := by
  unfold withKept
  cases o.cache with
  | none => rfl
  | some cache =>
    dsimp only
    rw [apply_ite storeless]
    exact ite_self _

/-- The steps that are left when all files are loaded, as far as they are not
about the cache. -/
def pureSteps (o : CompilationOptions) : List (Compilation → Compilation) :=
  [unlessRecalled (withChecked o), withRegistry o,
    unlessRecalled (withResolved o), unlessRecalled withLayout,
    unlessRecalled withGraph, unlessRecalled id]

theorem storeless_foldl_laterSteps (o : CompilationOptions) (c : Compilation) :
    ((laterSteps o).foldl (fun c step => unlessFailed step c) c).storeless =
      (pureSteps o).foldl (fun c step => unlessFailed step c) c.storeless := by
  apply showing_storeless.foldl
  exact .cons (showing_storeless.unlessRecalled (storeless_withChecked o)) <|
    .cons (storeless_withRegistry o) <|
    .cons (showing_storeless.unlessRecalled (storeless_withResolved o)) <|
    .cons (showing_storeless.unlessRecalled fun _ => rfl) <|
    .cons (showing_storeless.unlessRecalled fun _ => rfl) <|
    .cons (showing_storeless.unlessRecalled (storeless_withKept o)) .nil

/-! ## The same corpus in another file system -/

/-- The same documents are found in both file systems, and they can be read
alike. -/
structure SameCorpus (o : CompilationOptions) (store store' : FileSystem) :
    Prop where
  discovered : Corpus.discover store' o.root o.patterns =
    Corpus.discover store o.root o.patterns
  contents : ∀ ids, Corpus.discover store o.root o.patterns = .ok ids →
    ∀ id ∈ ids, contentOf o store' id = contentOf o store id

instance (o : CompilationOptions) (store store' : FileSystem) :
    Decidable (SameCorpus o store store') :=
  decidable_of_iff
      (Corpus.discover store' o.root o.patterns =
      Corpus.discover store o.root o.patterns ∧
      ∀ id ∈ (Corpus.discover store o.root o.patterns).toOption.getD [],
        contentOf o store' id = contentOf o store id) <| by
    constructor
    · rintro ⟨hdiscovered, hcontents⟩
      refine ⟨hdiscovered, ?_⟩
      intro ids hids id hid
      rw [hids] at hcontents
      exact hcontents id hid
    · rintro ⟨hdiscovered, hcontents⟩
      refine ⟨hdiscovered, ?_⟩
      intro id hid
      cases hids : Corpus.discover store o.root o.patterns with
      | error e =>
        rw [hids] at hid
        cases hid
      | ok ids =>
        rw [hids] at hid
        exact hcontents ids hids id hid

theorem storeless_withFile
    (o : CompilationOptions) (content : Text → Except FileError Text)
    (c : Compilation) (id : Text) :
    (withFile o content c id).storeless =
      withFile o content c.storeless id := by
  unfold withFile
  cases content id with
  | error e => rfl
  | ok raw => rfl

theorem storeless_foldl_withFile
    (o : CompilationOptions) (content : Text → Except FileError Text)
    (ids : List Text) (c : Compilation) :
    (ids.foldl (withFile o content) c).storeless =
      ids.foldl (withFile o content) c.storeless := by
  induction ids generalizing c with
  | nil => rfl
  | cons id ids ih =>
    rw [List.foldl_cons, List.foldl_cons, ih, storeless_withFile]

theorem storeless_withFiles (o : CompilationOptions) (c : Compilation) :
    (withFiles o c).storeless =
      (c.storeless.found.foldl (withFile o (contentOf o c.store))
      c.storeless).stopOnErrors := by
  rw [withFiles, storeless_stopOnErrors, storeless_foldl_withFile]
  rfl

theorem found_withFound :
    (withFound o (bareStart o store)).found =
      (Corpus.discover store o.root o.patterns).toOption.getD [] := by
  have hstore : (bareStart o store).store = store := rfl
  unfold withFound
  rw [hstore]
  cases Corpus.discover store o.root o.patterns with
  | error e => rfl
  | ok ids =>
    dsimp only
    split
    next => rfl
    next => rfl

theorem store_withFound (o : CompilationOptions) (c : Compilation) :
    (withFound o c).store = c.store := by
  unfold withFound
  cases Corpus.discover c.store o.root o.patterns with
  | error e => rfl
  | ok ids =>
    dsimp only
    split
    next => rfl
    next => rfl

theorem SameCorpus.storeless_withFound (h : SameCorpus o store store') :
    (withFound o (bareStart o store')).storeless =
    (withFound o (bareStart o store)).storeless := by
  unfold withFound
  rw [show (bareStart o store').store = store' from rfl, h.discovered,
    show (bareStart o store).store = store from rfl]
  cases Corpus.discover store o.root o.patterns with
  | error e => rfl
  | ok ids =>
    dsimp only
    rw [apply_ite storeless, apply_ite storeless]
    rfl

theorem SameCorpus.storeless_loadedState (h : SameCorpus o store store') :
    (loadedState o store').storeless = (loadedState o store).storeless := by
  have hfound : (withFound o (bareStart o store)).storeless.found =
      (Corpus.discover store o.root o.patterns).toOption.getD [] :=
    found_withFound
  rw [loadedState, loadedState, storeless_withFiles, storeless_withFiles,
    h.storeless_withFound, store_withFound, store_withFound]
  congr 1
  apply List.foldl_ext
  intro c id hid
  rw [hfound] at hid
  cases hids : Corpus.discover store o.root o.patterns with
  | error e =>
    rw [hids] at hid
    cases hid
  | ok ids =>
    rw [hids] at hid
    have hcontent : contentOf o store' id = contentOf o store id :=
      h.contents ids hids id hid
    unfold withFile
    rw [show contentOf o (bareStart o store').store id =
      contentOf o store id from hcontent]
    rfl

theorem SameCorpus.loads (h : SameCorpus o store store')
    (hfound : (withFound o (bareStart o store)).failure = none)
    (hloaded : (loadedState o store).failure = none) :
    (withFound o (bareStart o store')).failure = none ∧
      (loadedState o store').failure = none := by
  constructor
  · change (withFound o (bareStart o store')).storeless.failure = none
    rw [h.storeless_withFound]
    exact hfound
  · change (loadedState o store').storeless.failure = none
    rw [h.storeless_loadedState]
    exact hloaded

/-! ## The first compilation -/

/-- A compilation that did not take its result from the cache has found nothing
there. -/
theorem recalled?_eq_none_of_cold (h : (bareRun o store).failure = none)
    (hcold : (bareRun o store).cacheHit = false) :
    recalled? o store (loadedState o store).files = none := by
  obtain ⟨hfound, hloaded, -⟩ := loaded_of_bareRun h
  have hstate := loaded_of_success hfound hloaded
  cases hrecalled : recalled? o store (loadedState o store).files with
  | none => rfl
  | some e =>
    have hsome : recalled? o (loadedState o store).store
        (loadedState o store).files = some e := by
      rw [hstate.store_eq, hrecalled]
    rw [bareRun_eq_of_loaded hfound hloaded, withRecalled_eq hsome,
      Option.map_some, Option.getD_some, foldl_laterSteps_of_cacheHit rfl,
      cacheHit_unlessFailed_withRegistry] at hcold
    cases hcold

theorem entry_withKept (o : CompilationOptions) (c : Compilation) :
    (withKept o c).entry = c.entry := by
  change (withKept o c).storeless.entry = c.storeless.entry
  rw [storeless_withKept]

theorem files_withKept (o : CompilationOptions) (c : Compilation) :
    (withKept o c).files = c.files := by
  change (withKept o c).storeless.files = c.storeless.files
  rw [storeless_withKept]

/-- Where nothing was found, there is nothing when a result was kept there, or
the result. -/
theorem recalled?_withKept (hmiss : recalled? o c.store c.files = none) :
    recalled? o (withKept o c).store c.files = none ∨
      recalled? o (withKept o c).store c.files =
      CacheEntry.decode? c.entry.encode := by
  unfold withKept
  unfold recalled? at hmiss ⊢
  cases hcache : o.cache with
  | none => exact .inl rfl
  | some cache =>
    rw [hcache] at hmiss
    dsimp only
    split
    next => exact .inl hmiss
    next => exact Cache.get?_put hmiss c.entry

theorem map_heading_of_layOutAll {docs laidOut : List Document}
    (h : layOutAll (docs.map fun d => (d.resolve r).document) =
      (laidOut, none)) :
    laidOut.map Document.heading = docs.map Document.heading := by
  have hlayout :=
    map_eq_map_of_forall₂ (f := Document.heading) (g := Document.heading)
    (fun d d' hlaidOut => (Document.heading_layOut hlaidOut).symm)
      (forall₂_of_layOutAll h)
  rw [← hlayout, List.map_map]
  apply List.map_congr_left
  intro d _
  exact Resolution.heading_document r d

/-! ## The later compilation -/

/-- A later compilation that finds the result has only to build the registry. -/
theorem bareRun_eq_of_hit {e : CacheEntry} {docs : List Document}
    (hfound : (withFound o (bareStart o store)).failure = none)
    (hloaded : (loadedState o store).failure = none)
    (hhit : recalled? o store (loadedState o store).files = some e)
    (hbuild : Registry.build o.naming docs = .ok r)
    (hdocs : e.documents.map Document.heading = docs.map Document.heading) :
    bareRun o store = { withEntry (loadedState o store) e with
        registry := some (r.live e.documents) } := by
  have hstate := loaded_of_success hfound hloaded
  have hsome : recalled? o (loadedState o store).store
      (loadedState o store).files = some e := by
    rw [hstate.store_eq, hhit]
  have hsuccess : (withEntry (loadedState o store) e).failure = none := hloaded
  have hlive :
      Registry.build o.naming (withEntry (loadedState o store) e).documents =
      .ok (r.live e.documents) :=
    Registry.build_eq_live hbuild hdocs
  rw [bareRun_eq_of_loaded hfound hloaded, withRecalled_eq hsome,
    Option.map_some, Option.getD_some, foldl_laterSteps_of_cacheHit rfl,
    unlessFailed, hsuccess, withRegistry, hlive]
  rfl

theorem bareRun_eq_of_miss (hfound : (withFound o (bareStart o store)).failure =
    none)
    (hloaded : (loadedState o store).failure = none)
    (hmiss : recalled? o store (loadedState o store).files = none) :
    bareRun o store = (laterSteps o).foldl (fun c step => unlessFailed step c)
    (loadedState o store) := by
  have hnothing : recalled? o (loadedState o store).store
      (loadedState o store).files = none := by
    rw [(loaded_of_success hfound hloaded).store_eq, hmiss]
  rw [bareRun_eq_of_loaded hfound hloaded, withRecalled_eq hnothing]
  rfl

/-- A later compilation that finds nothing does everything again. -/
theorem storeless_bareRun_of_miss
    (hfound : (withFound o (bareStart o store)).failure = none)
    (hloaded : (loadedState o store).failure = none)
    (hmiss : recalled? o store (loadedState o store).files = none)
    (hcorpus : SameCorpus o store store')
    (hmiss' : recalled? o store' (loadedState o store').files = none) :
    (bareRun o store').storeless = (bareRun o store).storeless := by
  obtain ⟨hfound', hloaded'⟩ := hcorpus.loads hfound hloaded
  rw [bareRun_eq_of_miss hfound hloaded hmiss,
    bareRun_eq_of_miss hfound' hloaded' hmiss', storeless_foldl_laterSteps,
    storeless_foldl_laterSteps, hcorpus.storeless_loadedState]

/-! ## Both compilations -/

/-- A later run comes to the end of the first. What the registry refers to are
the documents as they are by then, and a result that was recalled lacks the
findings beyond the limit. -/
structure Rerun (limit : Nat) (ran ran' : Compilation) : Prop where
  failure : ran'.failure = ran.failure
  results : results ran' = results ran
  registry : ran'.registry.map (fun r => r.live ran'.documents) =
    ran.registry.map fun r => r.live ran.documents
  findings : ran'.bag.items.toList =
    if ran'.cacheHit then ran.bag.items.toList.take limit
    else ran.bag.items.toList

theorem rerun_of_storeless_eq (h : ran'.storeless = ran.storeless)
    (hcold : ran.cacheHit = false) (limit : Nat) :
    Rerun limit ran ran' := by
  have hmiss : ran'.cacheHit = false := by
    change ran'.storeless.cacheHit = false
    rw [h]
    exact hcold
  have hregistry :
      ran'.storeless.registry.map (fun r => r.live ran'.storeless.documents) =
      ran.storeless.registry.map fun r => r.live ran.storeless.documents := by
      rw [h]
  constructor
  case failure =>
    change ran'.storeless.failure = ran.storeless.failure
    rw [h]
  case results =>
    change Compilation.results ran'.storeless =
      Compilation.results ran.storeless
    rw [h]
  case registry => exact hregistry
  case findings =>
    rw [hmiss]
    change ran'.storeless.bag.items.toList = ran.storeless.bag.items.toList
    rw [h]

/-- A run that recalls the entry of a finished state repeats it. -/
theorem rerun_of_hit {documents : List Document} (hmade : Made o c r documents)
    (hfound' : (withFound o (bareStart o store')).failure = none)
    (hloaded' : (loadedState o store').failure = none)
    (hhit : recalled? o store' (loadedState o store').files =
      some (finishedState o c r documents).entry) :
    Rerun (Bag.new o.limit).limit (finishedState o c r documents)
      (bareRun o store') := by
  have hrun := bareRun_eq_of_hit hfound' hloaded' hhit hmade.registered
    (map_heading_of_layOutAll hmade.laidOut)
  rw [hrun]
  constructor
  case failure => exact hloaded'
  case results => rfl
  case registry => rfl
  case findings =>
    change ((loadedState o store').bag.addAll
      (finishedState o c r documents).bag.items.toList).items.toList = _
    rw [(loaded_of_success hfound' hloaded').bag_eq, Bag.toList_addAll_new]
    rfl

theorem Rerun.withKept {limit : Nat} (h : Rerun limit ran ran')
    (o : CompilationOptions) :
    Rerun limit (withKept o ran) ran' := by
  unfold Compilation.withKept
  cases o.cache with
  | none => exact h
  | some cache =>
    dsimp only
    split
    next => exact h
    next => exact ⟨h.failure, h.results, h.registry, h.findings⟩

/-- Another run on the same corpus repeats the first. -/
theorem rerun_of_sameCorpus (hsuccess : (bareRun o store).failure = none)
    (hcold : (bareRun o store).cacheHit = false)
    (hcorpus : SameCorpus o store store')
    (hcache : recalled? o store' (bareRun o store).files = none ∨
      recalled? o store' (bareRun o store).files =
      recalled? o (bareRun o store).store (bareRun o store).files)
    (hround : CacheEntry.decode? (bareRun o store).entry.encode =
      some (bareRun o store).entry) :
    Rerun (Bag.new o.limit).limit (bareRun o store) (bareRun o store') := by
  have hmiss := recalled?_eq_none_of_cold hsuccess hcold
  obtain ⟨hfound, hloaded, -⟩ := loaded_of_bareRun hsuccess
  obtain ⟨hfound', hloaded'⟩ := hcorpus.loads hfound hloaded
  obtain ⟨hstate, r, documents, hmade, hrun⟩ := made_of_miss hsuccess hmiss
  have hsame : (loadedState o store').files = (loadedState o store).files := by
    change (loadedState o store').storeless.files =
      (loadedState o store).storeless.files
    rw [hcorpus.storeless_loadedState]
  cases hrecalled : recalled? o store' (loadedState o store').files with
  | none =>
    exact rerun_of_storeless_eq
      (storeless_bareRun_of_miss hfound hloaded hmiss hcorpus hrecalled) hcold _
  | some e =>
    have hnothing : recalled? o (loadedState o store).store
        (loadedState o store).files = none := by
      rw [hstate.store_eq, hmiss]
    have hfiles : (bareRun o store).files = (loadedState o store').files := by
      rw [hrun, files_withKept, hsame]
      rfl
    rw [hfiles, hrecalled, hrun, hsame] at hcache
    rw [hrun, entry_withKept] at hround
    -- what is recalled can only be what was kept
    have hentry : e =
        (finishedState o (loadedState o store) r documents).entry := by
      rcases recalled?_withKept
        (c := finishedState o (loadedState o store) r documents) hnothing with
        hnone | hkept
      · simp [show recalled? o _ (loadedState o store).files = none from hnone]
          at hcache
      · rw [hround] at hkept
        simpa [show recalled? o _ (loadedState o store).files = _ from hkept]
          using hcache
    rw [hentry] at hrecalled
    rw [hrun]
    exact (rerun_of_hit hmade hfound' hloaded' hrecalled).withKept o

/-- A later compilation comes to the end of the first. What the registry refers
to are the documents as they are by then, and a result that was recalled lacks
the findings beyond the limit. -/
structure Repeats (limit : Nat) (first second : Compilation) : Prop where
  failure : second.failure = first.failure
  results : results second = results first
  registry : second.registry.map (fun r => r.live second.documents) =
    first.registry.map fun r => r.live first.documents
  findings : ∃ ds, Reports first ds ∧
    Reports second (if second.cacheHit then ds.take limit else ds)

theorem EndsLike.repeats {limit : Nat} {first second : Compilation}
    (h : EndsLike first ran)
    (h' : EndsLike second ran') (hrerun : Rerun limit ran ran') :
    Repeats limit first second := by
  have hdocuments : second.documents = ran'.documents :=
    congrArg Prod.fst h'.results
  have hdocuments' : first.documents = ran.documents :=
    congrArg Prod.fst h.results
  constructor
  case failure => rw [h.failure, h'.failure, hrerun.failure]
  case results => rw [h.results, h'.results, hrerun.results]
  case registry =>
    rw [h.registry, h'.registry, hdocuments, hdocuments', hrerun.registry]
  case findings =>
    refine ⟨_, h.findings, ?_⟩
    rw [h'.cacheHit, ← hrerun.findings]
    exact h'.findings

/-- Another compilation of the same corpus repeats the first, whether the result
that the first has kept can be read or not. -/
theorem repeats_of_sameCorpus
    {o : CompilationOptions} {store store' : FileSystem}
    {tracer tracer' : Trace.Tracer} {parent parent' : UInt64}
    {first second : Compilation}
    (hfirst : first = compile o store tracer parent)
    (hsecond : second = compile o store' tracer' parent')
    (hsuccess : first.failure = none) (hcold : first.cacheHit = false)
    (hcorpus : SameCorpus (complete o) store store')
    (hcache : recalled? (complete o) store' first.files = none ∨
      recalled? (complete o) store' first.files =
      recalled? (complete o) first.store first.files)
    (hround : CacheEntry.decode? (bareRun (complete o) store).entry.encode =
      some (bareRun (complete o) store).entry) :
    Repeats (Bag.new o.limit).limit first second := by
  subst hfirst hsecond
  have hends := endsLike_bareRun o store tracer parent
  have hends' := endsLike_bareRun o store' tracer' parent'
  rw [hends.failure] at hsuccess
  rw [hends.cacheHit] at hcold
  rw [hends.files, hends.store] at hcache
  have hrerun := rerun_of_sameCorpus hsuccess hcold hcorpus hcache hround
  rw [show (complete o).limit = o.limit from rfl] at hrerun
  exact hends.repeats hends' hrerun

/-! ## A finding that is lost -/

/-- A document with a reference to an enumeration that is not there, and a mark
on its request. -/
def noted (mark : Text) : FileSystem :=
  { nodes := [("/", .directory), ("/corpus", .directory),
      ("/corpus/p.xml", .file
      ("<protocol name=\"p\"><interface name=\"p_i\" version=\"1\"><request name=\"r\"" ++ mark
        ++ "><arg name=\"a\" type=\"uint\" enum=\"e\"/></request></interface></protocol>"))] }

def cachedOptions : CompilationOptions :=
  { root := "/corpus", limit := 1, cache := some ⟨"/cache"⟩ }

/-- One finding can be recalled. -/
theorem noted_repeats :
    (compile cachedOptions (compile cachedOptions (noted "")).store).cacheHit =
    true ∧
      Repeats (Bag.new 1).limit (compile cachedOptions (noted ""))
        (compile cachedOptions (compile cachedOptions (noted "")).store) := by
  have hruns : (compile cachedOptions (noted "")).failure.isNone = true ∧
      (compile cachedOptions (noted "")).cacheHit = false ∧
      SameCorpus (complete cachedOptions) (noted "")
      (compile cachedOptions (noted "")).store ∧
      CacheEntry.decode?
      (bareRun (complete cachedOptions) (noted "")).entry.encode =
        some (bareRun (complete cachedOptions) (noted "")).entry ∧
      (compile cachedOptions
        (compile cachedOptions (noted "")).store).cacheHit = true := by
    decide +kernel
  obtain ⟨hsuccess, hcold, hcorpus, hround, hhit⟩ := hruns
  exact ⟨hhit, repeats_of_sameCorpus rfl rfl
    (Option.isNone_iff_eq_none.1 hsuccess) hcold hcorpus (.inr rfl) hround⟩

/-- What is found on a source, repetitions included. -/
def rawFindings (o : CompilationOptions) (s : Text × Source.File) :
    List Diagnostic :=
  (Document.read Document.maxOffset s.2).2 ++
    ((located o s).map fun d => d.validate.diagnostics).getD []

/-- The compilation with its documents read and checked, and with all that was
found on them. -/
def withRawChecked (o : CompilationOptions) (c : Compilation) : Compilation :=
  stopOnErrors <|
    if o.cancelled then c.fail .cancelled
    else { c with
      documents := checked o c.sources
      bag := mergeBags c.bag
        (c.sources.map fun s => (Bag.new o.limit).addAll (rawFindings o s)) }

/-- Where nothing is found twice, nothing is gained by looking for repetitions.
-/
theorem withChecked_eq_withRawChecked
    (hdistinct : ∀ s ∈ c.sources,
      ((rawFindings o s).map Diagnostic.key).Nodup) :
    withChecked o c = withRawChecked o c := by
  have hbags : checkedBags o c.sources =
      c.sources.map fun s => (Bag.new o.limit).addAll (rawFindings o s) := by
    apply List.map_congr_left
    intro s hs
    have hfresh : ({} : Seen).fresh (rawFindings o s) = rawFindings o s :=
      Seen.fresh_eq_self (fun _ _ => Std.HashSet.contains_empty)
        (hdistinct s hs)
    rw [parseFile_eq]
    exact congrArg (Bag.new o.limit).addAll hfresh
  rw [withChecked, withRawChecked, hbags]

/-- A run that finds nothing in the cache and nothing twice. -/
def rawRun (o : CompilationOptions) (store : FileSystem) : Compilation :=
  (laterSteps o).tail.foldl (fun c step => unlessFailed step c)
    (withRawChecked o (loadedState o store))

theorem bareRun_eq_rawRun (hfound : (withFound o (bareStart o store)).failure =
    none)
    (hloaded : (loadedState o store).failure = none)
    (hmiss : recalled? o store (loadedState o store).files = none)
    (hdistinct : ∀ s ∈ (loadedState o store).sources,
      ((rawFindings o s).map Diagnostic.key).Nodup) :
    bareRun o store = rawRun o store := by
  have hstep : unlessFailed (unlessRecalled (withChecked o))
      (loadedState o store) =
      withRawChecked o (loadedState o store) := by
    rw [unlessFailed, hloaded, unlessRecalled,
      (loaded_of_success hfound hloaded).cacheHit,
      withChecked_eq_withRawChecked hdistinct]
    rfl
  rw [bareRun_eq_of_miss hfound hloaded hmiss, laterSteps, List.foldl_cons,
    hstep]
  rfl

/-- A document on which one thing is found when it is read and another when it
is resolved. -/
def oddlyNoted : FileSystem :=
  noted " type=\"odd\""

theorem bareRun_oddlyNoted :
    bareRun (complete cachedOptions) oddlyNoted =
    rawRun (complete cachedOptions) oddlyNoted := by
  have hloaded :
        (withFound (complete cachedOptions)
        (bareStart (complete cachedOptions) oddlyNoted)).failure.isNone
        = true ∧
      (loadedState (complete cachedOptions) oddlyNoted).failure.isNone = true ∧
      recalled? (complete cachedOptions) oddlyNoted
        (loadedState (complete cachedOptions) oddlyNoted).files = none ∧
      ∀ s ∈ (loadedState (complete cachedOptions) oddlyNoted).sources,
        ((rawFindings (complete cachedOptions) s).map
        Diagnostic.key).Nodup := by
    decide +kernel
  obtain ⟨hfound, hloaded, hmiss, hdistinct⟩ := hloaded
  exact bareRun_eq_rawRun (Option.isNone_iff_eq_none.1 hfound)
    (Option.isNone_iff_eq_none.1 hloaded) hmiss hdistinct

/-- Two findings do not fit where one has room: the second is reported by the
first compilation and cannot be recalled. -/
theorem oddlyNoted_forgotten :
    (compile cachedOptions oddlyNoted).failure = none ∧
      SameCorpus (complete cachedOptions) oddlyNoted
      (compile cachedOptions oddlyNoted).store ∧
      (compile cachedOptions
      (compile cachedOptions oddlyNoted).store).cacheHit = true ∧
      2 ≤ (compile cachedOptions oddlyNoted).bag.size ∧
      (compile cachedOptions
      (compile cachedOptions oddlyNoted).store).bag.size = 1 := by
  have hends := endsLike_bareRun cachedOptions oddlyNoted {} 0
  rw [bareRun_oddlyNoted] at hends
  have hruns : (rawRun (complete cachedOptions) oddlyNoted).failure.isNone =
      true ∧
      (rawRun (complete cachedOptions) oddlyNoted).bag.items.size = 2 ∧
      SameCorpus (complete cachedOptions) oddlyNoted
      (rawRun (complete cachedOptions) oddlyNoted).store ∧
      (compile cachedOptions
      (rawRun (complete cachedOptions) oddlyNoted).store).cacheHit = true ∧
      (compile cachedOptions
      (rawRun (complete cachedOptions) oddlyNoted).store).bag.size = 1 := by
    decide +kernel
  obtain ⟨hsuccess, hraw, hcorpus, hhit, hrecalled⟩ := hruns
  have hsize : 2 ≤ (compile cachedOptions oddlyNoted).bag.size := by
    obtain ⟨timings, hitems, -⟩ := hends.findings
    have hlength := congrArg List.length hitems
    rw [List.length_append, Array.length_toList, Array.length_toList, hraw]
      at hlength
    rw [Bag.size]
    omega
  rw [hends.failure, hends.store]
  exact ⟨Option.isNone_iff_eq_none.1 hsuccess, hcorpus, hhit, hsize, hrecalled⟩

end Compilation

end ProtocolCorpus
