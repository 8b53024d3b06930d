import ProtocolCorpus.Proofs.Cells

/-!
# Workers that share a registry

Documents are resolved by one worker each, and the workers run at the same time.
A worker goes along the arguments of its document and writes what they mean,
while the others read the document through the registry. Here the workers take
turns in any order, one argument at a time. Whatever the order is, each of them
ends with what it would have found alone, so a compilation does not depend on
it.
-/

namespace ProtocolCorpus

open Resolution

variable {r : Registry} {docs : List Document} {turns : List Nat}

/-! ## Workers -/

/-- A worker with its document, the arguments as they are written by now, what
it has found on the way and the number of arguments it has dealt with. -/
structure Worker where
  document : Document
  cells : List Argument
  progress : Progress := {}
  handled : Nat := 0

namespace Worker

variable {r' : Registry} {d : Document} {done todo : List Site}

def ofDocument (d : Document) : Worker where
  document := d
  cells := d.sites.map Site.argument

def current (w : Worker) : Document :=
  w.document.withCells w.cells

/-- The worker deals with its next argument, reading the registry as it is by
now. -/
def step (r : Registry) (w : Worker) : Worker :=
  match w.current.sites[w.handled]? with
  | none => w
  | some s => { w with
    cells := w.cells.set w.handled (argument r w.current s.interface s.argument)
    progress := visitSite r w.current w.progress s
    handled := w.handled + 1 }

def resolved (r : Registry) (w : Worker) : Resolved where
  ok := !w.progress.failed
  document := w.current
  imports := {
    document := w.document.path
    aliasName :=
      ((r.document? w.document.path).map Registration.aliasName).getD []
    importPath := w.document.importPath
    imports := imports w.document w.progress.edges }
  diagnostics := w.progress.diagnostics

/-- The worker has dealt with the arguments `done`, as if nobody else were
there, and not with `todo`. -/
structure Along (r : Registry) (d : Document) (done todo : List Site)
    (w : Worker) : Prop where
  sites_eq : d.sites = done ++ todo
  document_eq : w.document = d
  cells_eq : w.cells =
    done.map (fun s => argument r d s.interface s.argument) ++
    todo.map Site.argument
  progress_eq : w.progress.heading = (done.foldl (visitSite r d) {}).heading
  handled_eq : w.handled = done.length

theorem along_ofDocument (r : Registry) (d : Document) :
    Along r d [] d.sites (ofDocument d) :=
  ⟨rfl, rfl, rfl, rfl, rfl⟩

theorem Along.heading_current {w : Worker} (h : Along r d done todo w) :
    w.current.heading = d.heading := by
  rw [current, Document.heading_withCells, h.document_eq]

/-- By their headings, the arguments ahead are those of the document. -/
theorem Along.heading_getElem?_sites {w : Worker} (h : Along r d done todo w) :
    (w.current.sites[w.handled]?).map Site.heading =
    todo.head?.map Site.heading := by
  have hlength : w.cells.length = w.document.sites.length := by
    rw [h.document_eq, h.cells_eq, h.sites_eq]
    simp
  have hsites := Document.map_heading_sites_withCells hlength
  rw [← List.getElem?_map]
  change (w.current.sites.map Site.heading)[w.handled]? = _
  rw [current, hsites, h.document_eq, h.cells_eq, h.sites_eq, h.handled_eq]
  rw [List.map_append, List.zipWith_append (by simp),
    List.getElem?_append_right (by simp)]
  cases todo with
  | nil => simp
  | cons s todo => simp [Site.withArgument, Site.heading]

/-- A turn takes a worker one argument further, whatever the others have
written. -/
theorem Along.step {s : Site} {w : Worker} (h : Along r d done (s :: todo) w)
    (hr : r'.heading = r.heading) :
    Along r d (done ++ [s]) todo (w.step r') := by
  obtain ⟨t, ht, hheading⟩ :=
    Option.map_eq_some_iff.1 (h.heading_getElem?_sites)
  have hinterface : t.interface.heading = s.interface.heading :=
    congrArg Site.interface hheading
  have hargument : t.argument = s.argument := by
    change t.heading.argument = s.heading.argument
    rw [hheading]
  have hwritten : argument r' w.current t.interface t.argument =
      argument r d s.interface s.argument := by
    rw [← argument_heading, hr, h.heading_current, hinterface, hargument,
      argument_heading]
  have hfound : (visitSite r' w.current w.progress t).heading =
      (visitSite r d (done.foldl (visitSite r d) {}) s).heading := by
    rw [← visitSite_heading, hr, h.heading_current, h.progress_eq, hheading,
      visitSite_heading]
  rw [Worker.step, ht]
  constructor
  case sites_eq => simp [h.sites_eq]
  case document_eq => exact h.document_eq
  case cells_eq =>
    dsimp only
    rw [hwritten, h.cells_eq, h.handled_eq]
    simp
  case progress_eq =>
    rw [List.foldl_append]
    exact hfound
  case handled_eq => simp [h.handled_eq]

theorem Along.step_of_nil {w : Worker} (h : Along r d done [] w) :
    w.step r' = w := by
  have hnone : w.current.sites[w.handled]? = none :=
    Option.map_eq_none_iff.1 h.heading_getElem?_sites
  rw [Worker.step, hnone]

/-- A worker that has dealt with all arguments has resolved its document. -/
theorem Along.resolved_eq {w : Worker} (h : Along r d done [] w) {p : Protocol}
    (hp : d.protocol = some p) (hwalk : ∀ m ∈ p.walk, m.Unresolved) :
    w.resolved r = d.resolve r := by
  have hsites : d.sites = done := by rw [h.sites_eq, List.append_nil]
  have hdocument : w.current = Resolution.document r d := by
    rw [current, h.document_eq, h.cells_eq, List.map_nil, List.append_nil,
      ← hsites]
    exact withCells_eq_document hp fun m hm => (hwalk m hm).generic
  have hprogress : w.progress.heading = (visit r d).heading := by
    rw [h.progress_eq, visit_eq_foldl, hsites]
  have himports : imports w.document w.progress.edges =
      imports d (visit r d).edges := by
    rw [← imports_heading, h.document_eq, hprogress, imports_heading]
  have hfailed : w.progress.failed = (visit r d).failed := by
    change w.progress.heading.failed = (visit r d).heading.failed
    rw [hprogress]
  have hdiagnostics : w.progress.diagnostics = (visit r d).diagnostics := by
    change w.progress.heading.diagnostics = (visit r d).heading.diagnostics
    rw [hprogress]
  rw [resolved, hdocument, himports, hfailed, hdiagnostics, h.document_eq]
  rfl

def After (r : Registry) (d : Document) (turns : Nat) (w : Worker) : Prop :=
  ∃ done todo, Along r d done todo w ∧ done.length = min turns d.sites.length

theorem After.step {turns : Nat} {w : Worker} (h : After r d turns w)
    (hr : r'.heading = r.heading) :
    After r d (turns + 1) (w.step r') := by
  obtain ⟨done, todo, halong, hlength⟩ := h
  have hsites := congrArg List.length halong.sites_eq
  rw [List.length_append] at hsites
  cases todo with
  | nil =>
    rw [halong.step_of_nil]
    refine ⟨done, [], halong, ?_⟩
    rw [List.length_nil] at hsites
    omega
  | cons s todo =>
    refine ⟨done ++ [s], todo, halong.step hr, ?_⟩
    rw [List.length_cons] at hsites
    rw [List.length_append, List.length_singleton]
    omega

/-- Enough turns lead to the end. -/
theorem After.exists_along {turns : Nat} {w : Worker} (h : After r d turns w)
    (hturns : d.sites.length ≤ turns) :
    ∃ done, Along r d done [] w := by
  obtain ⟨done, todo, halong, hlength⟩ := h
  have hsites := congrArg List.length halong.sites_eq
  rw [List.length_append] at hsites
  have hnil : todo = [] := List.eq_nil_of_length_eq_zero (by omega)
  exact ⟨done, hnil ▸ halong⟩

end Worker

/-! ## Turns -/

def shared (r : Registry) (ws : List Worker) : Registry :=
  r.live (ws.map Worker.current)

def takeTurn (r : Registry) (ws : List Worker) (k : Nat) : List Worker :=
  ws.modify k (Worker.step (shared r ws))

/-- The workers have turns in the given order. -/
def takeTurns (r : Registry) (docs : List Document)
    (turns : List Nat) : List Worker :=
  turns.foldl (takeTurn r) (docs.map Worker.ofDocument)

/-- Every worker has had the turns it was given, and none has been disturbed. -/
def Undisturbed (r : Registry) (docs : List Document) (turns : List Nat)
    (ws : List Worker) : Prop :=
  ws.length = docs.length ∧
    ∀ k d w, docs[k]? = some d → ws[k]? = some w →
    Worker.After r d (turns.count k) w

theorem Undisturbed.map_heading_current {ws : List Worker}
    (h : Undisturbed r docs turns ws) :
    (ws.map Worker.current).map Document.heading =
      docs.map Document.heading := by
  rw [List.map_map]
  apply List.ext_getElem
  · simp [h.1]
  · intro k hk hk'
    rw [List.length_map] at hk hk'
    obtain ⟨done, todo, halong, -⟩ :=
      h.2 k docs[k] ws[k] (List.getElem?_eq_getElem hk')
        (List.getElem?_eq_getElem hk)
    simp [halong.heading_current]

theorem Undisturbed.heading_shared {ws : List Worker}
    (h : Undisturbed r docs turns ws) (hr : r.Indexed docs) :
    (shared r ws).heading = r.heading := by
  rw [shared, Registry.heading_live h.map_heading_current,
    Registry.live_of_indexed hr]

theorem Undisturbed.takeTurn {ws : List Worker}
    (h : Undisturbed r docs turns ws) (hr : r.Indexed docs) (k : Nat) :
    Undisturbed r docs (turns ++ [k]) (takeTurn r ws k) := by
  have hshared := h.heading_shared hr
  obtain ⟨hlength, hafter⟩ := h
  refine ⟨by rw [ProtocolCorpus.takeTurn, List.length_modify, hlength], ?_⟩
  intro j d w hd hw
  rw [ProtocolCorpus.takeTurn, List.getElem?_modify] at hw
  obtain ⟨v, hv, rfl⟩ := Option.map_eq_some_iff.1 hw
  have hj := hafter j d v hd hv
  rw [List.count_append, List.count_singleton]
  by_cases hkj : k = j
  · rw [if_pos hkj, if_pos (by simp [hkj])]
    exact hj.step hshared
  · rw [if_neg hkj, if_neg (by simpa using fun heq => hkj heq)]
    exact hj

theorem undisturbed_takeTurns (hr : r.Indexed docs) (turns : List Nat) :
    Undisturbed r docs turns (takeTurns r docs turns) := by
  induction turns using List.reverseRecOn with
  | nil =>
    refine ⟨List.length_map _, ?_⟩
    intro k d w hd hw
    rw [takeTurns, List.foldl_nil, List.getElem?_map, hd] at hw
    cases hw
    exact ⟨[], d.sites, Worker.along_ofDocument r d, by simp⟩
  | append_singleton turns k ih =>
    rw [takeTurns, List.foldl_append]
    exact ih.takeTurn hr k

def Sufficient (docs : List Document) (turns : List Nat) : Prop :=
  ∀ k d, docs[k]? = some d → d.sites.length ≤ turns.count k

/-- Whatever the order of the turns is, each worker hands over what its document
alone is resolved to. -/
theorem map_resolved_takeTurns {rules : NamingRules}
    (hr : Registry.build rules docs = .ok r)
    (hdocs : ∀ d ∈ docs, ∃ p, d.protocol = some p ∧ ∀ m ∈ p.walk, m.Unresolved)
    (hturns : Sufficient docs turns) :
    (takeTurns r docs turns).map (Worker.resolved r) =
      docs.map (Document.resolve r) := by
  obtain ⟨hlength, hafter⟩ :=
    undisturbed_takeTurns (Registry.indexed_of_build hr).2 turns
  apply List.ext_getElem
  · simp [hlength]
  · intro k hk hk'
    rw [List.length_map] at hk hk'
    have hworker :=
      hafter k docs[k] (takeTurns r docs turns)[k]
        (List.getElem?_eq_getElem hk')
      (List.getElem?_eq_getElem hk)
    obtain ⟨done, halong⟩ :=
      hworker.exists_along (hturns k docs[k] (List.getElem?_eq_getElem hk'))
    obtain ⟨p, hp, hwalk⟩ := hdocs docs[k] (List.getElem_mem hk')
    rw [List.getElem_map, List.getElem_map]
    exact halong.resolved_eq hp hwalk

/-! ## Compilations -/

/-- For any documents, an order of turns that is enough for them. -/
structure Interleaving where
  turns : List Document → List Nat
  sufficient : ∀ docs, Sufficient docs (turns docs)

namespace Compilation

variable {o : CompilationOptions} {c : Compilation}

def withInterleaved (o : CompilationOptions) (i : Interleaving)
    (c : Compilation) : Compilation :=
  stopOnErrors <|
    match c.registry with
    | none => c
    | some r =>
      let done := (takeTurns r c.documents (i.turns c.documents)).map
        (Worker.resolved r)
      { c with
        documents := done.map Resolved.document
        resolutions := done.map Resolved.imports
        bag := mergeBags c.bag
          (done.map fun v => (Bag.new o.limit).addAll v.diagnostics) }

theorem withInterleaved_eq {sources : List (Text × Source.File)} {r : Registry}
    (hdocuments : c.documents = checked o sources)
    (hbuild : Registry.build o.naming c.documents = .ok r)
    (hr : c.registry = some r) (i : Interleaving) :
    withInterleaved o i c = withResolved o c := by
  have hfresh : ∀ d ∈ c.documents, ∃ p, d.protocol = some p ∧
      ∀ m ∈ p.walk, m.Unresolved := by
    intro d hd
    rw [hdocuments] at hd
    exact exists_protocol_of_mem_checked hd
  have hdone := map_resolved_takeTurns hbuild hfresh (i.sufficient c.documents)
  rw [withInterleaved, withResolved, hr]
  dsimp only
  rw [hdone, List.map_map, List.map_map, List.map_map]
  rfl

def earlierSteps (o : CompilationOptions) : List (Compilation → Compilation) :=
  [withFound o, withFiles o, withRecalled o, unlessRecalled (withChecked o),
    withRegistry o]

def interleavedSteps (o : CompilationOptions)
    (i : Interleaving) : List (Compilation → Compilation) :=
  earlierSteps o ++ [unlessRecalled (withInterleaved o i),
    unlessRecalled withLayout, unlessRecalled withGraph,
    unlessRecalled (withKept o)]

def interleavedRun (o : CompilationOptions) (i : Interleaving)
    (store : FileSystem) : Compilation :=
  (interleavedSteps o i).foldl (fun c step => unlessFailed step c)
    (bareStart o store)

/-- The documents that are to be resolved have been read and registered. -/
theorem registered_of_passes {store : FileSystem}
    (h : Passes (earlierSteps o) (bareStart o store) c)
    (hhit : c.cacheHit = false) :
    ∃ sources r, c.documents = checked o sources ∧
      Registry.build o.naming c.documents = .ok r ∧
      c.registry = some r := by
  obtain ⟨-, h⟩ := h.uncons
  obtain ⟨-, h⟩ := h.uncons
  obtain ⟨-, h⟩ := h.uncons
  cases hrecalled :
    (withRecalled o (withFiles o (withFound o (bareStart o store)))).cacheHit
    with
  | true =>
    -- what was recalled stays recalled
    obtain ⟨-, h⟩ := h.uncons
    obtain ⟨-, h⟩ := h.uncons
    cases h
    rw [cacheHit_withRegistry, unlessRecalled, if_pos hrecalled, hrecalled]
      at hhit
    cases hhit
  | false =>
    obtain ⟨hchecked, h⟩ := h.uncons_of_not_cacheHit hrecalled
    rw [withChecked_of_success hchecked] at h
    obtain ⟨hregistered, h⟩ := h.uncons
    obtain ⟨r, hbuild, hregistry⟩ := withRegistry_of_success hregistered
    rw [hregistry] at h
    cases h
    exact ⟨_, r, rfl, hbuild, rfl⟩

/-- After the steps before it, resolution by workers that take turns is
resolution. -/
theorem unlessFailed_withInterleaved_eq {store : FileSystem}
    (hc : (earlierSteps o).foldl (fun c step => unlessFailed step c)
      (bareStart o store) = c)
    (i : Interleaving) :
    unlessFailed (unlessRecalled (withInterleaved o i)) c =
      unlessFailed (unlessRecalled (withResolved o)) c := by
  by_cases hfailed : c.failure.isSome = true
  · rw [unlessFailed, unlessFailed, if_pos hfailed, if_pos hfailed]
  · have hsuccess : c.failure = none := by simpa using hfailed
    rw [unlessFailed, unlessFailed, if_neg hfailed, if_neg hfailed]
    by_cases hhit : c.cacheHit = true
    · rw [unlessRecalled, unlessRecalled, if_pos hhit, if_pos hhit]
    · rw [unlessRecalled, unlessRecalled, if_neg hhit, if_neg hhit]
      have hpasses : Passes (earlierSteps o) (bareStart o store) c := by
        rw [← hc]
        apply passes_of_success
        rw [hc, hsuccess]
      obtain ⟨sources, r, hdocuments, hbuild, hr⟩ :=
        registered_of_passes hpasses (by simpa using hhit)
      exact withInterleaved_eq hdocuments hbuild hr i

/-- A compilation does not depend on the order in which its workers take turns.
-/
theorem interleavedRun_eq (o : CompilationOptions) (i : Interleaving)
    (store : FileSystem) :
    interleavedRun o i store = bareRun o store := by
  have hstep := @unlessFailed_withInterleaved_eq o _ store rfl i
  rw [interleavedRun, interleavedSteps, List.foldl_append, List.foldl_cons,
    hstep]
  rfl

/-- Whatever is written to the arguments of documents cannot be seen through
their registry. -/
theorem heading_live_withCells
    {docs : List Document} {r : Registry} (hr : r.Indexed docs)
    {rows : List (List Argument)} (hrows : docs.length = rows.length) :
    (r.live (List.zipWith Document.withCells rows docs)).heading =
      r.heading := by
  have hdocs :
      (List.zipWith Document.withCells rows docs).map Document.heading =
      docs.map Document.heading := by
    rw [List.map_zipWith, ← zipWith_eq_map hrows]
    congr 1
    funext cells d
    exact d.heading_withCells cells
  rw [Registry.heading_live hdocs, Registry.live_of_indexed hr]

/-- A compilation does not depend on its schedule, nor on the order in which
workers that share a registry take turns. Whatever the workers have written so
far, they read the same through it. -/
theorem sameOutcome_of_interleaving
    (o : CompilationOptions) (s s' : Schedule) (i : Interleaving)
    (store : FileSystem) (tracer tracer' : Trace.Tracer)
    (parent parent' : UInt64) :
    SameOutcome (compile { o with schedule := s } store tracer parent)
        (compile { o with schedule := s' } store tracer' parent') ∧
      SameOutcome (compile { o with schedule := s } store tracer parent)
        (interleavedRun (complete o) i store) ∧
      ∀ docs r, Registry.build (complete o).naming docs = .ok r →
        ∀ rows, docs.length = rows.length →
        (∀ name,
        ((r.live (List.zipWith Document.withCells rows docs)).owners name).map
        Owner.heading =
          (r.owners name).map Owner.heading) ∧
        ∀ d j a, argument (r.live (List.zipWith Document.withCells rows docs)) d
          j a = argument r d j a := by
  have hs : EndsLike (compile { o with schedule := s } store tracer parent)
    (bareRun (complete o) store) :=
    endsLike_bareRun { o with schedule := s } store tracer parent
  have hs' : EndsLike (compile { o with schedule := s' } store tracer' parent')
    (bareRun (complete o) store) :=
    endsLike_bareRun { o with schedule := s' } store tracer' parent'
  refine ⟨hs.sameOutcome hs', ?_, ?_⟩
  · rw [interleavedRun_eq]
    exact hs.sameOutcome (endsLike_self _)
  · intro docs r hr rows hrows
    have hlive := heading_live_withCells (Registry.indexed_of_build hr).2 hrows
    constructor
    · intro name
      rw [← Registry.owners_heading, hlive, Registry.owners_heading]
    · intro d j a
      rw [← argument_heading, hlive, argument_heading]

end Compilation

/-- The workers have turns round by round, as many as there are arguments. -/
def Interleaving.byRounds : Interleaving where
  turns docs :=
    (List.range (docs.flatMap Document.sites).length).flatMap fun _ =>
      List.range docs.length
  sufficient := by
    intro docs k d hd
    obtain ⟨hk, rfl⟩ := List.getElem?_eq_some_iff.1 hd
    have hcount : (List.range docs.length).count k = 1 :=
      List.count_eq_one_of_mem List.nodup_range (List.mem_range.2 hk)
    have hle : docs[k].sites.length ≤ (docs.flatMap Document.sites).length :=
      (List.sublist_flatten_of_mem
        (List.mem_map_of_mem (List.getElem_mem hk))).length_le
    rw [List.count_flatMap]
    simpa [Function.comp_def, hcount] using hle

def Compilation.backward : Schedule :=
  ⟨fun count => (List.range count).reverse, fun _ => List.reverse_perm _⟩

/-- Two workers have five turns each, the one with two arguments ends first; and
the documents may be worked on from the last to the first. -/
theorem Compilation.seat_sameOutcome :
    Interleaving.byRounds.turns (compile narrowOptions seat).documents =
        [0, 1, 0, 1, 0, 1, 0, 1, 0, 1] ∧
      SameOutcome (compile narrowOptions seat)
        (compile { narrowOptions with schedule := backward } seat) ∧
      SameOutcome (compile narrowOptions seat)
        (interleavedRun (complete narrowOptions) .byRounds seat) := by
  obtain ⟨hschedules, hinterleaved, -⟩ := sameOutcome_of_interleaving
    narrowOptions .sequential backward .byRounds seat {} {} 0 0
  refine ⟨?_, hschedules, hinterleaved⟩
  rw [view_compile_seat documents (fun _ => rfl) (fun _ _ => rfl)]
  decide +kernel

end ProtocolCorpus
