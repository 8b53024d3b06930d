import ProtocolCorpus.Proofs.Emission
import ProtocolCorpus.Proofs.HandOff
import ProtocolCorpus.Proofs.Path
import ProtocolCorpus.Proofs.Reading
import ProtocolCorpus.Proofs.Registry

/-!
# What a clean compilation has

A compilation that does not fail and drops no finding is complete: each of its
results has one entry for every document that was found, in the order of their
identities, and every reference has a meaning.
-/

namespace ProtocolCorpus

/-! ## References -/

/-- Every reference of the argument has a meaning, and only a number has the
meaning of a bit field. -/
structure Argument.Meant (a : Argument) : Prop where
  interface : a.interface ≠ [] → a.resolvedInterface.isSome = true
  enum : a.enum ≠ [] → a.resolvedEnum.isSome = true
  bitfield : ∀ e, a.resolvedEnum = some e → e.bitfield = true → a.kind = .uint

namespace Document

/-- Resolution that does not fail gives every reference a meaning. -/
theorem meant_of_resolve_ok
    {r : Registry} {d : Document} (hfresh : d.Unresolved)
    (hok : (d.resolve r).ok = true) :
    ∀ s ∈ (d.resolve r).document.sites, s.argument.Meant := by
  intro s' hs'
  change s' ∈ (Resolution.document r d).sites at hs'
  rw [Resolution.sites_document] at hs'
  obtain ⟨s, hs, rfl⟩ := List.mem_map.1 hs'
  obtain ⟨q, hq⟩ :=
    (Resolution.exists_visit_of_foldl
      (Resolution.not_failed_of_resolve_ok hok)).2 s hs
  obtain ⟨-, hnone⟩ := hfresh s hs
  have hlookup : s.argument.enum ≠ [] → ∃ t : EnumTarget,
      (Resolution.argument r d s.interface s.argument).resolvedEnum =
      some t.reference ∧
        (t.reference.bitfield = true → s.argument.kind = .uint) := by
    intro hne
    obtain ⟨t, ht, hbits⟩ := Resolution.exists_enum_of_visitSite hq hne
    exact ⟨t, by simp [Resolution.argument, hne, ht], hbits⟩
  constructor
  case interface =>
    intro hne
    change s.argument.interface ≠ [] at hne
    obtain ⟨t, ht⟩ := (Resolution.not_failed_of_visitSite hq).2 hne
    simp [Resolution.resolvedSite, Resolution.argument, hne, ht]
  case enum =>
    intro hne
    obtain ⟨t, ht, -⟩ := hlookup hne
    exact Option.isSome_iff_exists.2 ⟨t.reference, ht⟩
  case bitfield =>
    intro e he hbits
    change (Resolution.argument r d s.interface s.argument).resolvedEnum =
      some e at he
    by_cases hempty : s.argument.enum = []
    · -- nothing was written, so nothing was looked up
      simp [Resolution.argument, hempty, hnone] at he
    · obtain ⟨t, ht, hkind⟩ := hlookup hempty
      rw [ht] at he
      cases he
      exact hkind hbits

theorem path_validate (d : Document) :
    d.validate.document.path = d.path := by
  unfold validate
  split
  · rfl
  · rfl

end Document

namespace Document

theorem path_layOut
    {d d' : Document} (h : d.layOut = .ok d') :
    d'.path = d.path := by
  unfold layOut at h
  split at h
  next =>
    cases h
    rfl
  next =>
    obtain ⟨q, -, rfl⟩ := Chain.map_eq_ok_iff.1 h
    rfl

theorem map_argument_sites_layOut
    {d d' : Document} (h : d.layOut = .ok d') :
    d'.sites.map Site.argument = d.sites.map Site.argument := by
  unfold layOut at h
  split at h
  next =>
    cases h
    rfl
  next p hp =>
    obtain ⟨q, hq, rfl⟩ := Chain.map_eq_ok_iff.1 h
    simp only [sites, hp, Option.map_some, Option.getD_some]
    rw [← Protocol.map_argument_sites_unplaced q, Protocol.unplaced_layOut hq,
      Protocol.map_argument_sites_unplaced]

end Document

namespace Compilation

variable {o : CompilationOptions} {r : Registry}
  {sources : List (Text × Source.File)}

theorem forall₂_of_layOutAll
    {ds ds' : List Document} (h : layOutAll ds = (ds', none)) :
    List.Forall₂ (fun d d' => d.layOut = .ok d') ds ds' := by
  induction ds generalizing ds' with
  | nil =>
    cases h
    exact .nil
  | cons d ds ih =>
    rw [layOutAll] at h
    split at h
    next => cases h
    next e hlayOut =>
      obtain ⟨hrow, hnone⟩ := Prod.mk.injEq _ _ _ _ ▸ h
      subst hrow
      exact .cons hlayOut (ih (Prod.ext rfl hnone))

/-! ## Rows -/

theorem map_eq_map_of_forall₂
    {α β γ : Type} {R : α → β → Prop} {f : α → γ} {g : β → γ}
    (hR : ∀ a b, R a b → f a = g b) {as : List α} {bs : List β}
    (h : List.Forall₂ R as bs) :
    as.map f = bs.map g := by
  induction h with
  | nil => rfl
  | cons hab _ ih => rw [List.map_cons, List.map_cons, hR _ _ hab, ih]

theorem paths_importNodes
    (files : Source.Files) {documents : List Document}
    {resolutions : List ResolvedImports}
    (hlength : documents.length ≤ resolutions.length) :
    ImportGraph.paths (importNodes files documents resolutions) =
      documents.map Document.path := by
  calc
    ImportGraph.paths (importNodes files documents resolutions)
        = List.zipWith (fun d _ => Document.path d) documents resolutions := by
          rw [ImportGraph.paths, importNodes, List.map_map, List.map_zipWith]
          rfl
    _ = ((documents.zip resolutions).map Prod.fst).map Document.path := by
          rw [List.map_map, ← List.map_uncurry_zip_eq_zipWith]
          rfl
    _ = documents.map Document.path := by rw [List.map_fst_zip hlength]

theorem map_path_digested (nodes : List GraphNode) :
    (digested nodes).map GraphDocument.path = ImportGraph.paths nodes := by
  simp [digested, ImportGraph.paths, Function.comp_def]

theorem emitted_perm
    {nodes : List GraphNode} (hdistinct : (ImportGraph.paths nodes).Nodup)
    (hnamed : ∀ x ∈ nodes, x.document.path ≠ []) :
    (ImportGraph.emitted nodes).Perm (ImportGraph.paths nodes) := by
  rw [ImportGraph.emitted_eq_map]
  exact ImportGraph.emission_map_name_perm hdistinct hnamed

/-! ## Findings that are kept -/

/-- No bag had to drop a finding: those on each document fit into the bag of the
document, and all of them into the bag they are merged into. -/
def KeptAll (o : CompilationOptions) (c : Compilation) : Prop :=
  ∀ r, c.registry = some r →
    (∀ rep ∈ reports o r c.sources, rep.findings.length ≤
    (Bag.new o.limit).limit) ∧
      ((reports o r c.sources).flatMap Report.findings).length ≤ Bag.maxLimit

theorem length_flatMap_take_le
    {α : Type} (limit : Nat) (xss : List (List α)) :
    (xss.flatMap (List.take limit)).length ≤ xss.flatten.length := by
  induction xss with
  | nil => exact Nat.le_refl 0
  | cons xs xss ih =>
    rw [List.flatMap_cons, List.flatten_cons, List.length_append,
      List.length_append, List.length_take]
    omega

/-- Where no finding is dropped, an error cannot be overlooked. -/
theorem passed_of_keptAll
    (hclean : (mergeBags (mergeBags (Bag.new o.limit) (checkedBags o sources))
      (resolvedBags o r (checked o sources))).hasErrors = false)
    (hfits : ∀ rep ∈ reports o r sources, rep.findings.length ≤
      (Bag.new o.limit).limit)
    (htotal : ((reports o r sources).flatMap Report.findings).length ≤
      Bag.maxLimit) :
    ∀ rep ∈ reports o r sources, rep.passed = true := by
  intro rep hrep
  cases hpassed : rep.passed with
  | true => rfl
  | false =>
    obtain ⟨before, after, hsplit⟩ := List.append_of_mem hrep
    have hlength := firstError_lt_length hrep hpassed
    have hroom := room_le_firstError hclean hsplit hlength
    have hown := hfits rep hrep
    have hbefore := length_flatMap_take_le (Bag.new o.limit).limit
      (before.map Report.findings)
    rw [hsplit, List.flatMap_append, List.flatMap_cons, List.length_append,
      List.length_append] at htotal
    rw [List.flatMap_def] at htotal
    unfold Bag.room at hroom
    omega

theorem map_path_checked_eq (o : CompilationOptions)
    (sources : List (Text × Source.File)) :
    (checked o sources).map Document.path =
      sources.filterMap fun s =>
        if (Document.read Document.maxOffset s.2).1.isSome then some s.1
      else none := by
  rw [checked, List.map_filterMap]
  congr 1
  funext s
  rw [parseFile_eq]
  dsimp only
  cases hread : (Document.read Document.maxOffset s.2).1 with
  | none => simp [located, hread]
  | some d => simp [located, hread, Document.path_validate]

theorem map_path_checked (haccepted : ∀ s ∈ sources, accepted o r s = true) :
    (checked o sources).map Document.path = sources.map Prod.fst := by
  rw [map_path_checked_eq]
  apply filterMap_eq_of_map_eq
  rw [List.map_map]
  apply List.map_congr_left
  intro s hs
  obtain ⟨d, hlocated, -⟩ := (Option.any_eq_true _ _).1 (haccepted s hs)
  obtain ⟨e, hread, -⟩ := Option.map_eq_some_iff.1 hlocated
  simp [hread]

theorem exists_protocol_of_mem_checked {d : Document}
    (hd : d ∈ checked o sources) :
    ∃ p, d.protocol = some p ∧ ∀ m ∈ p.walk, m.Unresolved := by
  obtain ⟨s, -, e, hlocated, rfl⟩ := mem_checked_iff.1 hd
  obtain ⟨x, hread, rfl⟩ := Option.map_eq_some_iff.1 hlocated
  obtain ⟨p, hp, hfresh⟩ := Document.fresh_of_read_eq_some hread
  exact Document.unresolved_validate (d := { x with
    path := s.1, importPath := Corpus.importPath o.importBase s.1 }) hp hfresh

theorem unresolved_of_mem_checked {d : Document} (hd : d ∈ checked o sources) :
    d.Unresolved := by
  obtain ⟨p, hp, hwalk⟩ := exists_protocol_of_mem_checked hd
  exact Document.unresolved_of_walk hp hwalk

/-! ## Completeness -/

structure Complete (o : CompilationOptions) (store : FileSystem)
    (c : Compilation) : Prop where
  discovered : Corpus.discover store o.root o.patterns = .ok c.found
  ascending : c.found.Pairwise fun s t => Text.before s t = true
  documents : c.documents.map Document.path = c.found
  resolutions : c.resolutions.map ResolvedImports.document = c.found
  graph : c.graph.map GraphDocument.path = c.found
  emission : c.emission.Perm c.found
  meant : ∀ d ∈ c.documents, ∀ s ∈ d.sites, s.argument.Meant

theorem Finished.map_path_documents {store : FileSystem} {c : Compilation}
    (h : Finished o store c r) :
    c.documents.map Document.path =
      (checked o c.sources).map Document.path := by
  have hsame := map_eq_map_of_forall₂ (f := Document.path) (g := Document.path)
    (fun d d' hlaidOut => (Document.path_layOut hlaidOut).symm)
    (forall₂_of_layOutAll h.laidOut)
  rw [← hsame, List.map_map]
  rfl

theorem Finished.complete {store : FileSystem} {c : Compilation}
    (h : Finished o store c r)
    (haccepted : ∀ s ∈ c.sources, accepted o r s = true) :
    Complete o store c := by
  have hchecked : (checked o c.sources).map Document.path = c.found := by
    rw [map_path_checked haccepted, h.sourced]
  have hdocuments : c.documents.map Document.path = c.found := by
    rw [h.map_path_documents, hchecked]
  have hresolutions : c.resolutions.map ResolvedImports.document = c.found := by
    rw [h.resolutions_eq, List.map_map, ← hchecked]
    rfl
  have hlength : c.documents.length ≤ c.resolutions.length := by
    rw [← List.length_map Document.path, hdocuments, ← hresolutions,
      List.length_map]
  have hpaths :
      ImportGraph.paths (importNodes c.files c.documents c.resolutions) =
      c.found := by
    rw [paths_importNodes c.files hlength, hdocuments]
  have hdistinct : c.found.Nodup := by
    rw [← hchecked]
    exact (Registry.indexed_of_build h.registered).2.distinct
  constructor
  case discovered => exact h.discovered
  case ascending =>
    refine ((Corpus.pairwise_le_of_discover h.discovered).and hdistinct).imp ?_
    intro s t hboth
    exact Text.before_iff_le_and_ne.2 hboth
  case documents => exact hdocuments
  case resolutions => exact hresolutions
  case graph => rw [h.graph_eq, map_path_digested, hpaths]
  case emission =>
    rw [h.emission_eq]
    rw [← hpaths] at hdistinct
    refine (emitted_perm hdistinct ?_).trans (.of_eq hpaths)
    intro x hx
    have hmem : x.document.path ∈ c.found := by
      rw [← hpaths]
      exact List.mem_map_of_mem hx
    exact (Corpus.isIdentity_of_discover h.discovered hmem).nonempty
  case meant =>
    have harguments :=
      map_eq_map_of_forall₂ (f := fun d => d.sites.map Site.argument)
      (g := fun d => d.sites.map Site.argument)
      (fun d d' hlaidOut => (Document.map_argument_sites_layOut hlaidOut).symm)
      (forall₂_of_layOutAll h.laidOut)
    intro d' hd' s' hs'
    have hmem :=
      List.mem_map_of_mem (f := fun d : Document => d.sites.map Site.argument)
        hd'
    rw [← harguments, List.map_map] at hmem
    obtain ⟨d, hd, hsame⟩ := List.mem_map.1 hmem
    have hs : s'.argument ∈
        ((d.resolve r).document.sites).map Site.argument := by
      rw [show ((d.resolve r).document.sites).map Site.argument =
        d'.sites.map Site.argument from hsame]
      exact List.mem_map_of_mem hs'
    obtain ⟨s, hs, hargument⟩ := List.mem_map.1 hs
    obtain ⟨source, hsource, e, hlocated, rfl⟩ := mem_checked_iff.1 hd
    have hboth := haccepted source hsource
    rw [accepted, hlocated, Option.any_some, Bool.and_eq_true] at hboth
    rw [← hargument]
    exact Document.meant_of_resolve_ok (unresolved_of_mem_checked hd)
      hboth.2 s hs

/-- A compilation without a cache that does not fail, and in which no finding
was dropped, is complete. -/
theorem complete_of_success
    {o : CompilationOptions} {store : FileSystem} {tracer : Trace.Tracer}
    {parent : UInt64} (hcache : o.cache = none)
    (h : (compile o store tracer parent).failure = none)
    (hkept : KeptAll o (compile o store tracer parent)) :
    Complete (complete o) store (compile o store tracer parent) := by
  obtain ⟨r, hfinished⟩ := finished_of_success hcache h
  obtain ⟨hfits, htotal⟩ := hkept r hfinished.registry_eq
  have hpassed := passed_of_keptAll hfinished.clean hfits htotal
  exact hfinished.complete (forall_accepted_iff.2 hpassed)

/-- A document with a reference to an interface, one to a bit field, and one to
an enumeration that is not there, and another document that refers to the first.
-/
def seat : FileSystem :=
  { nodes := [("/", .directory), ("/corpus", .directory),
      ("/corpus/pad.xml", .file
        ("<protocol name=\"pad\"><interface name=\"t_pad\" version=\"1\">"
          ++ "<request name=\"r\"><arg name=\"s\" type=\"object\" "
          ++ "interface=\"s_seat\"/><arg name=\"c\" type=\"uint\" "
          ++ "enum=\"s_seat.caps\"/></request></interface></protocol>")),
      ("/corpus/seat.xml", .file
        ("<protocol name=\"seat\"><interface name=\"s_seat\" version=\"1\">"
          ++ "<enum name=\"caps\" bitfield=\"true\">"
          ++ "<entry name=\"key\" value=\"1\"/></enum><request name=\"r\">"
          ++ "<arg name=\"s\" type=\"object\" interface=\"s_seat\"/>"
          ++ "<arg name=\"c\" type=\"uint\" enum=\"caps\"/>"
          ++ "<arg name=\"e\" type=\"int\" enum=\"s_seat.e\"/>"
          ++ "</request></interface></protocol>"))] }

def seatNames : List Text :=
  ["pad.xml", "seat.xml"]

/-- The steps that follow when the documents have been found. -/
def seatRun : Compilation :=
  let o := complete narrowOptions
  (withFiles o :: withRecalled o :: laterSteps o).foldl
    (fun c step => unlessFailed step c)
    { bareStart o seat with found := seatNames }

/-- Whatever does not depend on the bag and on who watches. -/
theorem view_compile_seat {α : Type} (view : Compilation → α)
    (hbare : ∀ c, view c.bare = view c)
    (hbag : ∀ c bag, view { c with bag } = view c) :
    view (compile narrowOptions seat) = view seatRun := by
  have hcandidates : Corpus.candidates seat "/corpus" = .ok seatNames := by
    decide +kernel
  have hdiscover : Corpus.discover seat "/corpus" [] = .ok seatNames := by
    rw [Corpus.discover_nil_eq_ok (by decide +kernel) (by decide +kernel)
      hcandidates]
    cbv
  have hfound : withFound (complete narrowOptions)
      (bareStart (complete narrowOptions) seat) =
        { bareStart (complete narrowOptions) seat with
          found := seatNames } := by
    unfold withFound
    rw [show Corpus.discover (bareStart (complete narrowOptions) seat).store
      (complete narrowOptions).root (complete narrowOptions).patterns =
        .ok seatNames from hdiscover]
    rfl
  have hrun : bareRun (complete narrowOptions) seat = seatRun := by
    rw [bareRun, bareSteps, List.foldl_cons, seatRun, ← hfound]
    rfl
  obtain ⟨bag, hcompile⟩ := bare_compile narrowOptions seat {} 0
  rw [← hbare, hcompile, hrun, hbag]

theorem emitted_seat {nodes : List GraphNode}
    (h : nodes.map (fun n =>
        (n.document.path, n.document.imports.map ImportTarget.path)) =
      [(Text.ofString "pad.xml", [Text.ofString "seat.xml"]),
      ("seat.xml", [])]) :
    ImportGraph.emitted nodes = ["seat.xml", "pad.xml"].map Text.ofString := by
  obtain ⟨⟨pad, _⟩, more, rfl, hpad, hmore⟩ := List.map_eq_cons_iff.1 h
  obtain ⟨⟨seat, _⟩, rest, rfl, hseat, hrest⟩ := List.map_eq_cons_iff.1 hmore
  obtain rfl := List.map_eq_nil_iff.1 hrest
  cases pad
  cases seat
  obtain ⟨rfl, himports⟩ := Prod.mk.inj hpad
  obtain ⟨rfl, hnone⟩ := Prod.mk.inj hseat
  obtain ⟨⟨_, _⟩, others, rfl, rfl, hothers⟩ := List.map_eq_cons_iff.1 himports
  obtain rfl := List.map_eq_nil_iff.1 hothers
  obtain rfl := List.map_eq_nil_iff.1 hnone
  cbv

/-- The document that is found last is imported by the other and emitted first.
-/
theorem seat_complete :
    (compile narrowOptions seat).found = seatNames ∧
      (compile narrowOptions seat).emission =
        ["seat.xml", "pad.xml"].map Text.ofString ∧
      (compile narrowOptions seat).documents.map (fun d => d.sites.length) =
        [2, 3] ∧
      Complete (complete narrowOptions) seat (compile narrowOptions seat) := by
  have hrun : seatRun.failure.isNone = true := by decide +kernel
  have hsuccess : (compile narrowOptions seat).failure = none := by
    rw [view_compile_seat failure (fun _ => rfl) (fun _ _ => rfl)]
    exact Option.isNone_iff_eq_none.1 hrun
  have hkept : seatRun.registry.all (fun r =>
      let all := reports narrowOptions r seatRun.sources
      all.all (fun rep =>
          rep.findings.length ≤ (Bag.new narrowOptions.limit).limit) &&
        (all.flatMap Report.findings).length ≤ Bag.maxLimit) = true := by
    decide +kernel
  refine ⟨?_, ?_, ?_, complete_of_success rfl hsuccess ?_⟩
  · rw [view_compile_seat found (fun _ => rfl) (fun _ _ => rfl)]
    decide +kernel
  · obtain ⟨r, hfinished⟩ := finished_of_success rfl hsuccess
    rw [hfinished.emission_eq]
    apply emitted_seat
    rw [view_compile_seat (fun c =>
      (importNodes c.files c.documents c.resolutions).map fun n =>
        (n.document.path, n.document.imports.map ImportTarget.path))
      (fun _ => rfl) (fun _ _ => rfl)]
    decide +kernel
  · rw [view_compile_seat documents (fun _ => rfl) (fun _ _ => rfl)]
    decide +kernel
  · intro r hr
    rw [view_compile_seat registry (fun _ => rfl) (fun _ _ => rfl)] at hr
    rw [hr, Option.all_some, Bool.and_eq_true, List.all_eq_true] at hkept
    rw [view_compile_seat sources (fun _ => rfl) (fun _ _ => rfl)]
    exact ⟨fun rep hrep => of_decide_eq_true (hkept.1 rep hrep),
      of_decide_eq_true hkept.2⟩

end Compilation

end ProtocolCorpus
