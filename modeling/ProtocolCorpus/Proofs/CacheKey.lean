import ProtocolCorpus.Proofs.Completeness
import ProtocolCorpus.Proofs.FileDigests
import ProtocolCorpus.Proofs.Parts

/-!
# What the key of a result determines

The key of a result is a digest of the files and of the options. As long as
digests do not collide and no zero byte gets in the way, it determines the paths
and contents of all files, the import base and the rules for names. It says
nothing of the root below which the files were found. So two compilations with
the same key lead to the same result exactly if their roots are one place.
-/

namespace ProtocolCorpus

namespace Source

/-- The file without what was done to it on its way in. -/
def File.plain (f : File) : File :=
  { f with treatment := {} }

end Source

namespace Compilation

variable {o : CompilationOptions} {c : Compilation} {store : FileSystem}

/-- Neither the options that a fingerprint shows one by one nor the paths of
files have a zero byte. -/
structure Legible (o : CompilationOptions) (c : Compilation) : Prop where
  importBase : (0 : UInt8) ∉ o.importBase
  rootStart : (0 : UInt8) ∉ o.naming.rootStart
  rootAlias : (0 : UInt8) ∉ o.naming.rootAlias
  rootProtocol : (0 : UInt8) ∉ o.naming.rootProtocol
  paths : ∀ f ∈ c.files.files.toList, (0 : UInt8) ∉ f.path

theorem fingerprint_eq (o : CompilationOptions) :
    fingerprint o =
    ("schema=" ++ Text.ofNat CacheEntry.schema.toNat ++ [0] ++
    "base=" : Text) ++
      (o.importBase ++ 0 ::
      (("prefix=" : Text) ++ (o.naming.rootStart ++ 0 :: (("alias=" : Text) ++
        (o.naming.rootAlias ++ 0 ::
        (("proto=" : Text) ++
        (o.naming.rootProtocol ++ 0 :: (("include=" : Text) ++
          Text.join "," o.patterns)))))))) := by
  simp only [fingerprint, Text.string_append, Text.append_string,
    List.append_assoc, List.cons_append, List.nil_append]

theorem eq_of_naming_eq
    {n n' : NamingRules} (hstart : n.rootStart = n'.rootStart)
    (halias : n.rootAlias = n'.rootAlias)
    (hprotocol : n.rootProtocol = n'.rootProtocol) :
    n = n' := by
  cases n
  cases n'
  cases hstart
  cases halias
  cases hprotocol
  rfl

theorem Legible.eq_of_fingerprint_eq {o' : CompilationOptions}
    {c' : Compilation} (h : Legible o c)
    (h' : Legible o' c') (heq : fingerprint o = fingerprint o') :
    o.importBase = o'.importBase ∧ o.naming = o'.naming := by
  rw [fingerprint_eq, fingerprint_eq] at heq
  obtain ⟨hbase, heq⟩ := Text.append_zero_inj h.importBase h'.importBase
    (List.append_cancel_left heq)
  obtain ⟨hstart, heq⟩ := Text.append_zero_inj h.rootStart h'.rootStart
    (List.append_cancel_left heq)
  obtain ⟨halias, heq⟩ := Text.append_zero_inj h.rootAlias h'.rootAlias
    (List.append_cancel_left heq)
  obtain ⟨hprotocol, -⟩ := Text.append_zero_inj h.rootProtocol h'.rootProtocol
    (List.append_cancel_left heq)
  exact ⟨hbase, eq_of_naming_eq hstart halias hprotocol⟩

/-! ## Equal files -/

def held (c : Compilation) : List Source.File :=
  c.loaded.filterMap c.files.get?

theorem Filed.map_snd_sources (h : Filed o store c) :
    c.sources.map Prod.snd = c.held := by
  have hsource : (List.range c.found.length).map
      (fun i => (c.source? i).map Prod.snd) =
      c.loaded.map c.files.get? := by
    apply List.ext_getElem
    · simp [h.length_loaded]
    · intro i hi _
      have hi : i < c.found.length := by simpa using hi
      have hi' : i < c.loaded.length := h.length_loaded ▸ hi
      simp [source?, hi, hi']
  rw [sources, List.map_filterMap]
  exact filterMap_eq_filterMap hsource

theorem Filed.sources_eq_zip (h : Filed o store c) :
    c.sources = c.found.zip c.held :=
  List.zip_of_prod h.map_fst_sources h.map_snd_sources

theorem Filed.length_held (h : Filed o store c) :
    c.held.length = c.found.length := by
  rw [← h.map_snd_sources, List.length_map, ← List.length_map Prod.fst,
    h.map_fst_sources]

/-- Two compilations have loaded the same files under the same numbers. -/
structure SameFiles (c₁ c₂ : Compilation) : Prop where
  files : c₁.files.files.toList.map Source.File.plain =
    c₂.files.files.toList.map Source.File.plain
  loaded : c₁.loaded = c₂.loaded

theorem SameFiles.map_plain_get?
    {c₁ c₂ : Compilation} (h : SameFiles c₁ c₂) (id : UInt32) :
    (c₁.files.get? id).map Source.File.plain =
      (c₂.files.get? id).map Source.File.plain := by
  simp only [Source.Files.get?, ← Array.getElem?_toList, ← List.getElem?_map,
    h.files]

theorem SameFiles.map_plain_held
    {c₁ c₂ : Compilation} (h : SameFiles c₁ c₂) :
    c₁.held.map Source.File.plain = c₂.held.map Source.File.plain := by
  rw [held, held, List.map_filterMap, List.map_filterMap, h.loaded]
  congr 1
  funext id
  exact h.map_plain_get? id

theorem SameFiles.importNodes_eq
    {c₁ c₂ : Compilation} (h : SameFiles c₁ c₂) (documents : List Document)
    (resolutions : List ResolvedImports) :
    importNodes c₁.files documents resolutions =
      importNodes c₂.files documents resolutions := by
  have hdigest : ∀ id, (c₁.files.get? id).map Source.File.digest =
      (c₂.files.get? id).map Source.File.digest := by
    intro id
    have hplain :=
      congrArg (Option.map Source.File.digest) (h.map_plain_get? id)
    rw [Option.map_map, Option.map_map] at hplain
    exact hplain
  have hdocument : graphDocument c₁.files = graphDocument c₂.files := by
    funext d r
    rw [graphDocument, graphDocument, hdigest]
  rw [importNodes, importNodes, hdocument]

/-! ## Documents -/

/-- What was done to files on their way in does not matter. -/
theorem checked_zip_plain (o : CompilationOptions) (ids : List Text)
    (files : List Source.File) :
    checked o (ids.zip files) =
      checked o (ids.zip (files.map Source.File.plain)) := by
  rw [List.zip_map_right, checked, checked, List.filterMap_map]
  rfl

theorem checked_congr
    {o₁ o₂ : CompilationOptions} (hbase : o₁.importBase = o₂.importBase)
    (sources : List (Text × Source.File)) :
    checked o₁ sources = checked o₂ sources := by
  simp only [checked, parseFile_eq, located, hbase]

section Kept

variable {α : Type} (keep : α → Bool)

def keptNames (ids : List Text) (xs : List α) : List Text :=
  (ids.zip xs).filterMap fun s => if keep s.2 then some s.1 else none

theorem keptNames_eq_nil_iff
    {ids : List Text} {xs : List α} (hlength : xs.length = ids.length) :
    keptNames keep ids xs = [] ↔ ∀ x ∈ xs, keep x = false := by
  have hsnd : (ids.zip xs).map Prod.snd = xs := List.map_snd_zip hlength.le
  rw [keptNames, List.filterMap_eq_nil_iff]
  constructor
  · intro hnone x hx
    rw [← hsnd, List.mem_map] at hx
    obtain ⟨s, hs, rfl⟩ := hx
    simpa using hnone s hs
  · intro hnone s hs
    have hmem : s.2 ∈ xs := by
      rw [← hsnd]
      exact List.mem_map_of_mem hs
    simp [hnone s.2 hmem]

/-- What is kept under names that differ throughout cannot have the same names.
-/
theorem keptNames_eq_nil_of_ne
    {ids ids' : List Text} (hne : List.Forall₂ (· ≠ ·) ids ids') {xs : List α}
    (h : keptNames keep ids xs = keptNames keep ids' xs) :
    keptNames keep ids xs = [] := by
  induction hne generalizing xs with
  | nil => rfl
  | @cons id id' ids ids' hid _ ih =>
    cases xs with
    | nil => rfl
    | cons x xs =>
      unfold keptNames at h ih ⊢
      simp only [List.zip_cons_cons, List.filterMap_cons] at h ⊢
      cases hkeep : keep x with
      | true =>
        rw [hkeep] at h
        exact absurd (List.cons.inj h).1 hid
      | false =>
        rw [hkeep] at h
        exact ih h

end Kept

def readable (f : Source.File) : Bool :=
  (Document.read Document.maxOffset f).1.isSome

theorem map_path_checked_zip (o : CompilationOptions) (ids : List Text)
    (files : List Source.File) :
    (checked o (ids.zip files)).map Document.path =
      keptNames readable ids files :=
  map_path_checked_eq o (ids.zip files)

/-! ## Results -/

theorem results_eq_of_checked_eq
    {o₁ o₂ : CompilationOptions} {store₁ store₂ : FileSystem}
    {c₁ c₂ : Compilation} {r₁ r₂ : Registry} (h₁ : Finished o₁ store₁ c₁ r₁)
    (h₂ : Finished o₂ store₂ c₂ r₂) (hfiles : SameFiles c₁ c₂)
    (hnaming : o₁.naming = o₂.naming)
    (hchecked : checked o₁ c₁.sources = checked o₂ c₂.sources) :
    results c₁ = results c₂ := by
  have hregistry : r₁ = r₂ := by
    have hbuild := h₁.registered
    rw [hnaming, hchecked, h₂.registered] at hbuild
    exact (Except.ok.inj hbuild).symm
  have hdocuments : c₁.documents = c₂.documents := by
    have hlaidOut := h₁.laidOut
    rw [hregistry, hchecked, h₂.laidOut] at hlaidOut
    exact (Prod.mk.inj hlaidOut).1.symm
  have hresolutions : c₁.resolutions = c₂.resolutions := by
    rw [h₁.resolutions_eq, h₂.resolutions_eq, hregistry, hchecked]
  rw [results, results, h₁.graph_eq, h₂.graph_eq, h₁.emission_eq,
    h₂.emission_eq, hfiles.importNodes_eq, hdocuments, hresolutions]

/-! ## Keys -/

/-- The texts that are digested on the way to a key. -/
def keyTexts (o : CompilationOptions) (c : Compilation) : List Text :=
  (c.files.digest ++ Digest.sha256 (fingerprint o)) :: c.files.digestInput ::
    fingerprint o ::
    c.files.files.toList.map Source.File.content

theorem eq_of_cacheKey_eq
    {o₁ o₂ : CompilationOptions} {c₁ c₂ : Compilation}
    (hfree : Digest.CollisionFree (keyTexts o₁ c₁ ++ keyTexts o₂ c₂))
    (h : cacheKey o₁ c₁.files = cacheKey o₂ c₂.files) :
    c₁.files.digestInput = c₂.files.digestInput ∧ fingerprint o₁ =
      fingerprint o₂ := by
  have hjoined : c₁.files.digest ++ Digest.sha256 (fingerprint o₁) =
      c₂.files.digest ++ Digest.sha256 (fingerprint o₂) := by
    apply hfree _ (by simp [keyTexts]) _ (by simp [keyTexts])
    simpa [cacheKey, Digest.combine] using h
  have hlength : c₁.files.digest.length = c₂.files.digest.length := by
    rw [Source.Files.digest, Source.Files.digest, Digest.length_sha256,
      Digest.length_sha256]
  obtain ⟨hdigest, hfingerprint⟩ := List.append_inj hjoined hlength
  exact ⟨hfree _ (by simp [keyTexts]) _ (by simp [keyTexts]) hdigest,
    hfree _ (by simp [keyTexts]) _ (by simp [keyTexts]) hfingerprint⟩

theorem cacheKey_congr
    {o₁ o₂ : CompilationOptions} {files₁ files₂ : Source.Files}
    (hinput : files₁.digestInput = files₂.digestInput)
    (hfingerprint : fingerprint o₁ = fingerprint o₂) :
    cacheKey o₁ files₁ = cacheKey o₂ files₂ := by
  rw [cacheKey, cacheKey, Source.Files.digest, Source.Files.digest, hinput,
    hfingerprint]

theorem exists_getElem_fileRow
    {root : Text} {ids raws : List Text} {k : Nat}
    (hk : k < (fileRow root ids raws).length) :
    ∃ path raw, (fileRow root ids raws)[k] = loadedFile k path raw := by
  have hget : (fileRow root ids raws)[k]? =
      (ids.zip raws)[k]?.map fun x =>
      loadedFile k (Path.join [root, x.1]) x.2 := by
    rw [fileRow, List.getElem?_map, List.getElem?_zipIdx, Option.map_map,
      Nat.zero_add]
    rfl
  rw [List.getElem?_eq_getElem hk] at hget
  obtain ⟨x, -, hx⟩ := Option.map_eq_some_iff.1 hget.symm
  exact ⟨_, _, hx.symm⟩

theorem mem_fileRow
    {root : Text} {ids raws : List Text} {f : Source.File}
    (hf : f ∈ fileRow root ids raws) :
    f.path = Path.clean f.path ∧ f.digest = Digest.sha256 f.content := by
  obtain ⟨x, -, rfl⟩ := List.mem_map.1 hf
  exact ⟨(Path.clean_clean _).symm, rfl⟩

theorem plain_loadedFile
    {n : Nat} {path path' raw raw' : Text}
    (hpath : Path.clean path = Path.clean path')
    (hcontent : (loadedFile n path raw).content =
      (loadedFile n path' raw').content) :
    (loadedFile n path raw).plain = (loadedFile n path' raw').plain := by
  have hform : ∀ path raw, (loadedFile n path raw).plain = {
      id := UInt32.ofNat n
      path := Path.clean path
      content := (loadedFile n path raw).content
      newlines := Source.newlinesFrom 0 (loadedFile n path raw).content
      digest := Digest.sha256 (loadedFile n path raw).content
      treatment := {} } := fun _ _ => rfl
  rw [hform, hform, hpath, hcontent]

section Rows

variable {root root' : Text} {ids ids' raws raws' : List Text}
  (hrow : (fileRow root ids raws).map (fun f => (Path.clean f.path, f.digest)) =
    (fileRow root' ids' raws').map fun f => (Path.clean f.path, f.digest))

include hrow

/-- Files with the same paths and digests are the same files. -/
theorem map_plain_fileRow
    (hfree : Digest.CollisionFree
      ((fileRow root ids raws).map Source.File.content ++
      (fileRow root' ids' raws').map Source.File.content)) :
    (fileRow root ids raws).map Source.File.plain =
      (fileRow root' ids' raws').map Source.File.plain := by
  apply List.ext_getElem
  · simpa using congrArg List.length hrow
  · intro k hk hk'
    rw [List.length_map] at hk hk'
    have hpair := List.getElem_of_eq hrow (by simpa using hk)
    rw [List.getElem_map, List.getElem_map] at hpair
    obtain ⟨hpath, hdigest⟩ := Prod.mk.inj hpair
    have hcontent : (fileRow root ids raws)[k].content =
        (fileRow root' ids' raws')[k].content := by
      apply hfree
        _ (List.mem_append_left _ (List.mem_map_of_mem (List.getElem_mem hk))) _
        (List.mem_append_right _ (List.mem_map_of_mem (List.getElem_mem hk')))
      rw [← (mem_fileRow (List.getElem_mem hk)).2, hdigest,
        (mem_fileRow (List.getElem_mem hk')).2]
    rw [List.getElem_map, List.getElem_map]
    obtain ⟨path, raw, hfile⟩ := exists_getElem_fileRow hk
    obtain ⟨path', raw', hfile'⟩ := exists_getElem_fileRow hk'
    rw [hfile, hfile'] at hpath hcontent ⊢
    have hclean : Path.clean (Path.clean path) =
      Path.clean (Path.clean path') := hpath
    rw [Path.clean_clean, Path.clean_clean] at hclean
    exact plain_loadedFile hclean hcontent

omit hrow in
theorem map_path_fileRow
    (hroot : root ≠ []) (hlength : raws.length = ids.length) :
    (fileRow root ids raws).map (fun f => Path.clean f.path) = ids.map fun id =>
      Path.join [root, id] := by
  have hclean : ∀ id, Path.clean (Path.clean (Path.join [root, id])) =
      Path.join [root, id] := by
    intro id
    rw [Path.clean_clean, Path.clean_join_cons hroot]
  calc
    (fileRow root ids raws).map (fun f => Path.clean f.path)
        = ((ids.zip raws).zipIdx.map Prod.fst).map fun x =>
            Path.join [root, x.1] := by
          rw [fileRow, List.map_map, List.map_map]
          exact List.map_congr_left fun x _ => hclean x.1.1
    _ = ((ids.zip raws).map Prod.fst).map fun id => Path.join [root, id] := by
          rw [List.zipIdx_map_fst, List.map_map]
          rfl
    _ = ids.map fun id => Path.join [root, id] := by
      rw [List.map_fst_zip hlength.ge]

theorem forall₂_join_eq
    (hroot : root ≠ []) (hroot' : root' ≠ [])
    (hlength : raws.length = ids.length)
    (hlength' : raws'.length = ids'.length) :
    List.Forall₂ (fun id id' => Path.join [root, id] = Path.join [root', id'])
      ids ids' := by
  have hpaths := congrArg (List.map Prod.fst) hrow
  rw [List.map_map, List.map_map] at hpaths
  have hjoined : (ids.map fun id => Path.join [root, id]) = ids'.map fun id =>
      Path.join [root', id] := by
    rw [← map_path_fileRow hroot hlength, ← map_path_fileRow hroot' hlength']
    exact hpaths
  rw [← List.forall₂_eq_eq_eq, List.forall₂_map_left_iff,
    List.forall₂_map_right_iff] at hjoined
  exact hjoined

end Rows

structure SameKey (o₁ o₂ : CompilationOptions)
    (c₁ c₂ : Compilation) : Prop where
  files : SameFiles c₁ c₂
  importBase : o₁.importBase = o₂.importBase
  naming : o₁.naming = o₂.naming
  paths : List.Forall₂
    (fun id id' => Path.join [o₁.root, id] = Path.join [o₂.root, id'])
    c₁.found c₂.found

theorem sameKey_of_cacheKey_eq
    {o₁ o₂ : CompilationOptions} {store₁ store₂ : FileSystem}
    {c₁ c₂ : Compilation} (h₁ : Filed o₁ store₁ c₁) (h₂ : Filed o₂ store₂ c₂)
    (hroot₁ : o₁.root ≠ []) (hroot₂ : o₂.root ≠ []) (hplain₁ : Legible o₁ c₁)
    (hplain₂ : Legible o₂ c₂)
    (hfree : Digest.CollisionFree (keyTexts o₁ c₁ ++ keyTexts o₂ c₂))
    (hkey : cacheKey o₁ c₁.files = cacheKey o₂ c₂.files) :
    SameKey o₁ o₂ c₁ c₂ := by
  obtain ⟨hinput, hfingerprint⟩ := eq_of_cacheKey_eq hfree hkey
  obtain ⟨hbase, hnaming⟩ := hplain₁.eq_of_fingerprint_eq hplain₂ hfingerprint
  obtain ⟨raws₁, hraws₁, hfiles₁, hloaded₁⟩ := h₁
  obtain ⟨raws₂, hraws₂, hfiles₂, hloaded₂⟩ := h₂
  have hlength₁ : raws₁.length = c₁.found.length := by
    simpa using (congrArg List.length hraws₁).symm
  have hlength₂ : raws₂.length = c₂.found.length := by
    simpa using (congrArg List.length hraws₂).symm
  have hcut : ∀ {o : CompilationOptions} {c : Compilation} {raws : List Text},
      Legible o c →
      c.files.files.toList = fileRow o.root c.found raws →
        ∀ f ∈ fileRow o.root c.found raws, (0 : UInt8) ∉ Path.clean f.path ∧
        f.digest.length = 32 := by
    intro o c raws hlegible hfiles f hf
    obtain ⟨hpath, hdigest⟩ := mem_fileRow hf
    rw [← hpath, hdigest, Digest.length_sha256]
    exact ⟨hlegible.paths f (hfiles ▸ hf), rfl⟩
  have hrow :=
    Source.eq_of_flatMap_eq (hcut hplain₁ hfiles₁) (hcut hplain₂ hfiles₂) (by
    rw [← hfiles₁, ← hfiles₂]
    exact hinput)
  have hcontents :
      Digest.CollisionFree
      ((fileRow o₁.root c₁.found raws₁).map Source.File.content ++
      (fileRow o₂.root c₂.found raws₂).map Source.File.content) := by
    rw [← hfiles₁, ← hfiles₂]
    have hsub : ∀ t ∈ c₁.files.files.toList.map Source.File.content ++
        c₂.files.files.toList.map Source.File.content, t ∈
        keyTexts o₁ c₁ ++ keyTexts o₂ c₂ := by
      intro t ht
      rcases List.mem_append.1 ht with ht | ht
      · simp [keyTexts, ht]
      · simp [keyTexts, ht]
    exact fun s hs t ht => hfree s (hsub s hs) t (hsub t ht)
  have hpaths := forall₂_join_eq hrow hroot₁ hroot₂ hlength₁ hlength₂
  refine ⟨⟨?_, ?_⟩, hbase, hnaming, hpaths⟩
  · rw [hfiles₁, hfiles₂, map_plain_fileRow hrow hcontents]
  · rw [hloaded₁, hloaded₂, hpaths.length_eq]

section Roots

variable {o₁ o₂ : CompilationOptions} {store₁ store₂ : FileSystem}
  {c₁ c₂ : Compilation} {r₁ r₂ : Registry}
  (h₁ : Finished o₁ store₁ c₁ r₁) (h₂ : Finished o₂ store₂ c₂ r₂)
  (hsame : SameKey o₁ o₂ c₁ c₂)

include h₁ h₂ hsame

/-- The documents are the same files, taken under the names that were found for
them. -/
theorem SameKey.checked_eq :
    ∃ files : List Source.File, files.length = c₁.found.length ∧
      checked o₁ c₁.sources = checked o₁ (c₁.found.zip files) ∧
      checked o₂ c₂.sources = checked o₁ (c₂.found.zip files) := by
  refine ⟨c₁.held.map Source.File.plain, ?_, ?_, ?_⟩
  · rw [List.length_map, h₁.filed.length_held]
  · rw [h₁.filed.sources_eq_zip, checked_zip_plain]
  · rw [h₂.filed.sources_eq_zip, checked_zip_plain, hsame.files.map_plain_held,
      checked_congr hsame.importBase]

theorem SameKey.forall₂_iff
    (hroot₁ : o₁.root ≠ []) (hroot₂ : o₂.root ≠ []) :
    List.Forall₂ (fun id id' => id = id' ↔ Path.clean o₁.root =
      Path.clean o₂.root) c₁.found c₂.found := by
  obtain ⟨hlength, hpaths⟩ := List.forall₂_iff_zip.1 hsame.paths
  refine List.forall₂_iff_zip.2 ⟨hlength, ?_⟩
  intro id id' hmem
  obtain ⟨hid, hid'⟩ := List.of_mem_zip hmem
  exact Corpus.identity_eq_iff_clean_root_eq hroot₁ hroot₂
    (Corpus.isIdentity_of_discover h₁.discovered hid)
    (Corpus.isIdentity_of_discover h₂.discovered hid') (hpaths hmem)

theorem SameKey.results_eq_iff
    (hroot₁ : o₁.root ≠ []) (hroot₂ : o₂.root ≠ []) :
    results c₁ = results c₂ ↔ Path.clean o₁.root = Path.clean o₂.root ∨
      c₁.documents = [] := by
  obtain ⟨files, hlength, hchecked₁, hchecked₂⟩ := hsame.checked_eq h₁ h₂
  have hnames := hsame.forall₂_iff h₁ h₂ hroot₁ hroot₂
  have hkept₁ : c₁.documents.map Document.path =
      keptNames readable c₁.found files := by
    rw [h₁.map_path_documents, hchecked₁, map_path_checked_zip]
  have hkept₂ : c₂.documents.map Document.path =
      keptNames readable c₂.found files := by
    rw [h₂.map_path_documents, hchecked₂, map_path_checked_zip]
  constructor
  · intro hresults
    by_cases hroots : Path.clean o₁.root = Path.clean o₂.root
    · exact .inl hroots
    · right
      have hne : List.Forall₂ (· ≠ ·) c₁.found c₂.found :=
        hnames.imp fun _ _ (hiff : _ ↔ _) heq => hroots (hiff.1 heq)
      have hdocuments : c₁.documents = c₂.documents := (Prod.mk.inj hresults).1
      have hkept : keptNames readable c₁.found files =
          keptNames readable c₂.found files := by
        rw [← hkept₁, ← hkept₂, hdocuments]
      have hnone := keptNames_eq_nil_of_ne readable hne hkept
      rw [hnone] at hkept₁
      exact List.map_eq_nil_iff.1 hkept₁
  · intro hcase
    apply results_eq_of_checked_eq h₁ h₂ hsame.files hsame.naming
    rcases hcase with hroots | hnone
    · have hfound : c₁.found = c₂.found := by
        rw [← List.forall₂_eq_eq_eq]
        exact hnames.imp fun id id' hiff => hiff.2 hroots
      rw [hchecked₁, hchecked₂, hfound]
    · -- nothing could be read, whatever it was to be called
      rw [hnone, List.map_nil] at hkept₁
      have hunreadable := (keptNames_eq_nil_iff readable hlength).1 hkept₁.symm
      rw [hnames.length_eq] at hlength
      have hnone₁ : (checked o₁ c₁.sources).map Document.path = [] := by
        rw [← h₁.map_path_documents, hnone, List.map_nil]
      have hnone₂ : (checked o₂ c₂.sources).map Document.path = [] := by
        rw [← h₂.map_path_documents, hkept₂,
          (keptNames_eq_nil_iff readable hlength).2 hunreadable]
      rw [List.map_eq_nil_iff.1 hnone₁, List.map_eq_nil_iff.1 hnone₂]

end Roots

theorem root_complete_ne_nil (o : CompilationOptions) :
    (complete o).root ≠ [] := by
  unfold complete
  dsimp only
  split
  next => decide
  next hroot => simpa using hroot

/-- Two compilations without a cache that do not fail and have the same key lead
to the same result exactly if their roots are one place, unless there is nothing
in the result at all. -/
theorem results_eq_iff_clean_root_eq
    {o₁ o₂ : CompilationOptions} {store₁ store₂ : FileSystem}
    {tracer₁ tracer₂ : Trace.Tracer} {parent₁ parent₂ : UInt64}
    {c₁ c₂ : Compilation} (hc₁ : c₁ = compile o₁ store₁ tracer₁ parent₁)
    (hc₂ : c₂ = compile o₂ store₂ tracer₂ parent₂) (hcache₁ : o₁.cache = none)
    (hcache₂ : o₂.cache = none) (hsuccess₁ : c₁.failure = none)
    (hsuccess₂ : c₂.failure = none) (hplain₁ : Legible (complete o₁) c₁)
    (hplain₂ : Legible (complete o₂) c₂)
    (hfree : Digest.CollisionFree
      (keyTexts (complete o₁) c₁ ++ keyTexts (complete o₂) c₂))
      (hkey : cacheKey (complete o₁) c₁.files =
      cacheKey (complete o₂) c₂.files) :
    results c₁ = results c₂ ↔
      Path.clean (complete o₁).root = Path.clean (complete o₂).root ∨
      c₁.documents = [] := by
  subst hc₁ hc₂
  obtain ⟨r₁, h₁⟩ := finished_of_success hcache₁ hsuccess₁
  obtain ⟨r₂, h₂⟩ := finished_of_success hcache₂ hsuccess₂
  have hroot₁ := root_complete_ne_nil o₁
  have hroot₂ := root_complete_ne_nil o₂
  have hsame :=
    sameKey_of_cacheKey_eq h₁.filed h₂.filed hroot₁ hroot₂ hplain₁
      hplain₂ hfree hkey
  exact hsame.results_eq_iff h₁ h₂ hroot₁ hroot₂

/-- A document two directories deep. -/
def nested : FileSystem :=
  { nodes := [("/", .directory), ("/a", .directory), ("/a/b", .directory),
      ("/a/b/x.xml", .file
      ("<protocol name=\"x\"><interface name=\"x_i\" version=\"1\"><request name=\"r\"></request>"
        ++ "</interface></protocol>"))] }

/-- The document is compiled below a root. -/
def below (root : Text) : CompilationOptions :=
  { root := root }

theorem nested_results_eq :
    Legible (complete (below "/a")) (compile (below "/a") nested) ∧
      Digest.CollisionFree
      (keyTexts (complete (below "/a")) (compile (below "/a") nested) ++
        keyTexts (complete (below "/a/b/.."))
        (compile (below "/a/b/..") nested)) ∧
      results (compile (below "/a") nested) =
        results (compile (below "/a/b/..") nested) := by
  have hruns : (compile (below "/a") nested).failure.isNone = true ∧
      (compile (below "/a/b/..") nested).failure.isNone = true ∧
      (∀ f ∈ (compile (below "/a") nested).files.files.toList,
      (0 : UInt8) ∉ f.path) ∧
      (∀ f ∈ (compile (below "/a/b/..") nested).files.files.toList,
      (0 : UInt8) ∉ f.path) ∧
      ((keyTexts (complete (below "/a")) (compile (below "/a") nested)).map
      Digest.sha256).Nodup ∧
      keyTexts (complete (below "/a/b/..")) (compile (below "/a/b/..") nested) =
        keyTexts (complete (below "/a")) (compile (below "/a") nested) ∧
      (compile (below "/a") nested).files.digestInput =
        (compile (below "/a/b/..") nested).files.digestInput := by
    decide +kernel
  obtain ⟨hsuccess, hsuccess', hpaths, hpaths', hdistinct, htexts, hinput⟩ :=
    hruns
  have hplain : Legible (complete (below "/a")) (compile (below "/a") nested) :=
    ⟨by decide, by decide, by decide, by decide, hpaths⟩
  have hplain' : Legible (complete (below "/a/b/.."))
    (compile (below "/a/b/..") nested) :=
    ⟨by decide, by decide, by decide, by decide, hpaths'⟩
  have hfree :
      Digest.CollisionFree
      (keyTexts (complete (below "/a")) (compile (below "/a") nested) ++
      keyTexts (complete (below "/a/b/.."))
      (compile (below "/a/b/..") nested)) := by
    refine Digest.collisionFree_of_nodup ?_ hdistinct
    intro t ht
    rw [htexts] at ht
    exact (List.mem_append.1 ht).elim id id
  refine ⟨hplain, hfree, ?_⟩
  refine (results_eq_iff_clean_root_eq rfl rfl rfl rfl
    (Option.isNone_iff_eq_none.1 hsuccess)
    (Option.isNone_iff_eq_none.1 hsuccess') hplain hplain' hfree
    (cacheKey_congr hinput rfl)).2 (.inl ?_)
  decide +kernel

/-- The key does not say below which directory a document was found. -/
theorem nested_key_eq :
    (compile (below "/a") nested).failure = none ∧
    (compile (below "/a/b") nested).failure = none ∧
      cacheKey (below "/a") (compile (below "/a") nested).files =
        cacheKey (below "/a/b") (compile (below "/a/b") nested).files ∧
      (compile (below "/a") nested).documents.map Document.path =
        [Text.ofString "b/x.xml"] ∧
      (compile (below "/a/b") nested).documents.map Document.path =
        [Text.ofString "x.xml"] := by
  have hruns : (compile (below "/a") nested).failure.isNone = true ∧
      (compile (below "/a/b") nested).failure.isNone = true ∧
      (compile (below "/a") nested).files.digestInput =
      (compile (below "/a/b") nested).files.digestInput ∧
      (compile (below "/a") nested).documents.map Document.path =
      [Text.ofString "b/x.xml"] ∧
      (compile (below "/a/b") nested).documents.map Document.path =
      [Text.ofString "x.xml"] := by
    decide +kernel
  obtain ⟨hsuccess, hsuccess', hinput, hpath, hpath'⟩ := hruns
  exact ⟨Option.isNone_iff_eq_none.1 hsuccess,
    Option.isNone_iff_eq_none.1 hsuccess', cacheKey_congr hinput rfl,
    hpath, hpath'⟩

end Compilation

end ProtocolCorpus
