import ProtocolCorpus.Proofs.Compilation
import ProtocolCorpus.Proofs.Rejection

/-!
# What may be handed on

A compilation hands its documents on when no error is left in its bag. Bags drop
what they have no room for, so this says that all documents were accepted only
as long as the first error of every rejected document found room: a bag that is
full of warnings lets a rejected document pass.
-/

namespace ProtocolCorpus

namespace Compilation

variable {o : CompilationOptions} {sources : List (Text × Source.File)}
  {r : Registry}

/-! ## Reports -/

/-- The document that is read from a source, in its place in the corpus. -/
def located (o : CompilationOptions) (s : Text × Source.File) :
    Option Document :=
  (Document.read Document.maxOffset s.2).1.map fun d =>
    { d with path := s.1, importPath := Corpus.importPath o.importBase s.1 }

/-- A source may be handed on: a document is read from it that is valid and can
be resolved. -/
def accepted (o : CompilationOptions) (r : Registry) (s : Text × Source.File) :
    Bool :=
  (located o s).any fun d => d.validate.valid &&
    (d.validate.document.resolve r).ok

/-- What one phase says of one document: whether it may pass, and what was
found. -/
structure Report where
  passed : Bool
  findings : List Diagnostic

/-- The place of the first error; behind all findings if there is none. -/
def Report.firstError (rep : Report) : Nat :=
  rep.findings.findIdx Diagnostic.isError

/-- What reading and checking say of a source. -/
def checkReport (o : CompilationOptions) (s : Text × Source.File) : Report where
  passed := (located o s).any fun d => d.validate.valid
  findings := ({} : Seen).fresh ((Document.read Document.maxOffset s.2).2 ++
    ((located o s).map fun d => d.validate.diagnostics).getD [])

def resolveReport (r : Registry) (d : Document) : Report where
  passed := (d.resolve r).ok
  findings := (d.resolve r).diagnostics

/-- All reports of a compilation, in the order their bags are merged. -/
def reports (o : CompilationOptions) (r : Registry)
    (sources : List (Text × Source.File)) : List Report :=
  sources.map (checkReport o) ++ (checked o sources).map (resolveReport r)

theorem parseFile_eq (o : CompilationOptions) (s : Text × Source.File) :
    parseFile o s.1 s.2 = {
      document := (located o s).map fun d => d.validate.document
      bag := (Bag.new o.limit).addAll (checkReport o s).findings } := by
  simp only [parseFile, checkReport, located, Option.map_map]
  rfl

theorem mem_checked_iff {d : Document} :
    d ∈ checked o sources ↔ ∃ s ∈ sources, ∃ e, located o s = some e ∧
    e.validate.document = d := by
  simp only [checked, List.mem_filterMap, parseFile_eq, Option.map_eq_some_iff]

theorem exists_protocol_of_located {s : Text × Source.File} {d : Document}
    (h : located o s = some d) :
    ∃ p, d.protocol = some p := by
  obtain ⟨e, hread, rfl⟩ := Option.map_eq_some_iff.1 h
  obtain ⟨p, hp⟩ := Document.exists_protocol_of_read_eq_some hread
  exact ⟨p, hp⟩

/-- A report that does not let its document pass has an error among its
findings. -/
theorem firstError_lt_length {rep : Report} (hrep : rep ∈ reports o r sources)
    (hpassed : rep.passed = false) :
    rep.firstError < rep.findings.length := by
  rw [Report.firstError, List.findIdx_lt_length]
  rcases List.mem_append.1 hrep with hrep | hrep
  · obtain ⟨s, -, rfl⟩ := List.mem_map.1 hrep
    apply Seen.exists_error_mem_fresh
    cases hlocated : located o s with
    | none =>
      have hread : (Document.read Document.maxOffset s.2).1 = none :=
        Option.map_eq_none_iff.1 hlocated
      obtain ⟨d, hd, herror⟩ := Document.exists_error_of_read_eq_none hread
      exact ⟨d, List.mem_append_left _ hd, herror⟩
    | some d =>
      obtain ⟨p, hp⟩ := exists_protocol_of_located hlocated
      simp only [checkReport, hlocated, Option.any_some] at hpassed
      obtain ⟨e, he, herror⟩ :=
        Document.exists_error_of_validate_eq_false hp hpassed
      exact ⟨e, List.mem_append_right _ he, herror⟩
  · obtain ⟨d, -, rfl⟩ := List.mem_map.1 hrep
    have herrors : (d.resolve r).diagnostics.any Diagnostic.isError = true := by
      have hok := Document.resolve_ok_eq r d
      rw [show (d.resolve r).ok = false from hpassed] at hok
      simpa using hok.symm
    simpa [resolveReport] using herrors

theorem forall_accepted_iff :
    (∀ s ∈ sources, accepted o r s = true) ↔ ∀ rep ∈ reports o r sources,
    rep.passed = true := by
  constructor
  · intro hall rep hrep
    rcases List.mem_append.1 hrep with hrep | hrep
    · obtain ⟨s, hs, rfl⟩ := List.mem_map.1 hrep
      obtain ⟨d, hlocated, hboth⟩ := (Option.any_eq_true _ _).1 (hall s hs)
      rw [Bool.and_eq_true] at hboth
      exact (Option.any_eq_true _ _).2 ⟨d, hlocated, hboth.1⟩
    · obtain ⟨d, hd, rfl⟩ := List.mem_map.1 hrep
      obtain ⟨s, hs, e, hlocated, rfl⟩ := mem_checked_iff.1 hd
      have hboth := hall s hs
      rw [accepted, hlocated, Option.any_some, Bool.and_eq_true] at hboth
      exact hboth.2
  · intro hall s hs
    have hpassed : (checkReport o s).passed = true :=
      hall _ (List.mem_append_left _ (List.mem_map_of_mem hs))
    obtain ⟨d, hlocated, hvalid⟩ := (Option.any_eq_true _ _).1 hpassed
    have hd : d.validate.document ∈ checked o sources :=
      mem_checked_iff.2 ⟨s, hs, d, hlocated, rfl⟩
    have hok : (resolveReport r d.validate.document).passed = true :=
      hall _ (List.mem_append_right _ (List.mem_map_of_mem hd))
    rw [accepted, hlocated, Option.any_some, hvalid]
    exact hok

/-! ## Room for errors -/

theorem toList_merged
    (o : CompilationOptions) (r : Registry)
    (sources : List (Text × Source.File)) :
    (mergeBags (mergeBags (Bag.new o.limit) (checkedBags o sources))
        (resolvedBags o r (checked o sources))).items.toList =
      (((reports o r sources).map Report.findings).flatMap
        (List.take (Bag.new o.limit).limit)).take Bag.maxLimit := by
  have hbags : checkedBags o sources ++ resolvedBags o r (checked o sources) =
      (reports o r sources).map fun rep =>
      (Bag.new o.limit).addAll rep.findings := by
    simp only [checkedBags, parseFile_eq, resolvedBags, reports,
      List.map_append, List.map_map]
    rfl
  rw [mergeBags, mergeBags, ← List.foldl_append, hbags]
  rw [← mergeBags, ((Bag.sound_new o.limit).toList_mergeBags _).2]
  simp only [List.flatMap_map, Bag.toList_addAll_new]
  rfl

/-- In a bag without errors no report has an error that there was room for. -/
theorem room_le_firstError
    (hclean : (mergeBags (mergeBags (Bag.new o.limit) (checkedBags o sources))
      (resolvedBags o r (checked o sources))).hasErrors = false)
      {before after : List Report}
    {rep : Report} (hsplit : reports o r sources = before ++ rep :: after)
    (hlength : rep.firstError < rep.findings.length) :
    Bag.room (Bag.new o.limit).limit (before.map Report.findings) ≤
      rep.firstError := by
  apply Nat.le_of_not_lt
  intro hroom
  have herror : rep.findings[rep.firstError].isError = true :=
    List.findIdx_getElem
  have hmem : rep.findings[rep.firstError] ∈
      rep.findings.take
      (Bag.room (Bag.new o.limit).limit (before.map Report.findings)) :=
    List.mem_take_iff_getElem.2 ⟨rep.firstError, by omega, rfl⟩
  have hkept : rep.findings[rep.firstError] ∈
      ((before.map Report.findings ++ rep.findings ::
      after.map Report.findings).flatMap
        (List.take (Bag.new o.limit).limit)).take Bag.maxLimit :=
    Bag.mem_take_of_mem_room hmem
  rw [Bag.hasErrors_eq_any, toList_merged, hsplit, List.map_append,
    List.map_cons, List.any_eq_false] at hclean
  exact hclean _ hkept herror

/-- A compilation without a cache that does not fail has accepted all of its
documents exactly if the first error of every report that rejects a document
found room in the bags. -/
theorem accepted_iff_firstError_lt_room
    {o : CompilationOptions} {store : FileSystem} {tracer : Trace.Tracer}
    {parent : UInt64} (hcache : o.cache = none)
    (h : (compile o store tracer parent).failure = none) :
    ∃ r, Completed (complete o) store (compile o store tracer parent) r ∧
      ((∀ s ∈ (compile o store tracer parent).sources, accepted o r s = true) ↔
        ∀ before rep after,
          reports o r (compile o store tracer parent).sources =
          before ++ rep :: after →
            rep.passed = false →
              rep.firstError < Bag.room (Bag.new o.limit).limit
              (before.map Report.findings)) := by
  obtain ⟨r, hcompleted⟩ := completed_of_success hcache h
  refine ⟨r, hcompleted, ?_⟩
  rw [forall_accepted_iff]
  constructor
  · intro hall before rep after hsplit hpassed
    have hrep : rep ∈ reports o r (compile o store tracer parent).sources := by
      rw [hsplit]
      exact List.mem_append_right _ List.mem_cons_self
    rw [hall rep hrep] at hpassed
    cases hpassed
  · intro hroom rep hrep
    obtain ⟨before, after, hsplit⟩ := List.append_of_mem hrep
    cases hpassed : rep.passed with
    | true => rfl
    | false =>
      have hlength := firstError_lt_length hrep hpassed
      have hle := room_le_firstError hcompleted.clean hsplit hlength
      exact absurd (hroom before rep after hsplit hpassed) (Nat.not_lt.2 hle)

/-- A document in which one argument names an enumeration that is not there, and
the next one, of the given kind, a bit field. -/
def sample (kind : Text) : FileSystem :=
  { nodes := [("/", .directory), ("/corpus", .directory),
      ("/corpus/p.xml", .file
      ("<protocol name=\"p\"><interface name=\"i\" version=\"1\">"
        ++ "<enum name=\"f\" bitfield=\"true\"><entry name=\"a\" value=\"1\"/></enum>"
        ++ "<request name=\"r\"><arg name=\"a\" type=\"uint\" enum=\"e\"/>"
        ++ "<arg name=\"b\" type=\"" ++ kind ++
        "\" enum=\"f\"/></request></interface></protocol>"))] }

/-- Bags have room for one finding. -/
def narrowOptions : CompilationOptions :=
  { root := "/corpus", limit := 1 }

/-- The warning takes all the room there is, and as there is no error the
document is accepted. -/
theorem sample_uint_accepted :
    ∃ r, (compile narrowOptions (sample "uint")).sources.length = 1 ∧
      (∀ s ∈ (compile narrowOptions (sample "uint")).sources,
      accepted narrowOptions r s = true) ∧
      ∀ before rep after,
        reports narrowOptions r
        (compile narrowOptions (sample "uint")).sources =
        before ++ rep :: after →
          rep.passed = false →
            rep.firstError < Bag.room (Bag.new narrowOptions.limit).limit
              (before.map Report.findings) := by
  have hsuccess : (compile narrowOptions (sample "uint")).failure.isNone =
      true := by
    decide +kernel
  have hlength : (compile narrowOptions (sample "uint")).sources.length =
      1 := by
    decide +kernel
  have hevaluated : (compile narrowOptions (sample "uint")).registry.all
    (fun r =>
      (compile narrowOptions (sample "uint")).sources.all fun s =>
      accepted narrowOptions r s) = true := by
    decide +kernel
  obtain ⟨r, hcompleted, hiff⟩ :=
    accepted_iff_firstError_lt_room rfl (Option.isNone_iff_eq_none.1 hsuccess)
  rw [hcompleted.registry_eq, Option.all_some, List.all_eq_true] at hevaluated
  exact ⟨r, hlength, hevaluated, hiff.1 hevaluated⟩

/-- The warning takes the room of an error, and a document that is not accepted
is handed on. -/
theorem sample_int_handedOn :
    narrowOptions.cache = none ∧
    (compile narrowOptions (sample "int")).failure = none ∧
      ∃ r, (compile narrowOptions (sample "int")).registry = some r ∧
        ∃ s ∈ (compile narrowOptions (sample "int")).sources,
        accepted narrowOptions r s = false := by
  have hsuccess : (compile narrowOptions (sample "int")).failure.isNone =
      true := by
    decide +kernel
  have hevaluated : (compile narrowOptions (sample "int")).registry.any
    (fun r =>
      (compile narrowOptions (sample "int")).sources.any fun s =>
      !accepted narrowOptions r s) = true := by
    decide +kernel
  obtain ⟨r, hr, hany⟩ := (Option.any_eq_true _ _).1 hevaluated
  obtain ⟨s, hs, hrejected⟩ := List.any_eq_true.1 hany
  exact ⟨rfl, Option.isNone_iff_eq_none.1 hsuccess, r, hr, s,
    hs, by simpa using hrejected⟩

end Compilation

end ProtocolCorpus
