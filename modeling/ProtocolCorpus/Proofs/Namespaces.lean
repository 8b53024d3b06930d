import Mathlib
import ProtocolCorpus.Proofs.Parts
import ProtocolCorpus.Proofs.Path
import ProtocolCorpus.Proofs.Registry
import ProtocolCorpus.Proofs.Scalars

/-!
# When documents share a namespace

A document is imported by its identity without the extension, and its extension
is `.xml` in whatever case. So documents are told apart by their import paths,
and by their aliases, as long as they differ in more than the case of their
extensions.
-/

namespace ProtocolCorpus

/-! ## Extensions up to case -/

namespace Scalar

theorem exists_byte_high
    {c : Char} (hc : ¬c.toNat < 0x80) :
    ∃ b ∈ String.utf8EncodeChar c, 0x80 ≤ b.toNat := by
  obtain ⟨b, tail, hencoded, -⟩ := first_utf8EncodeChar c []
  refine ⟨b, hencoded ▸ List.mem_cons_self, ?_⟩
  by_contra hlow
  have hsame := toNat_eq_of_lead_lt hencoded (by omega)
  omega

/-- A scalar that is folded to bytes of a word without K and S is a character of
one byte. -/
theorem map_lowerByte_bytes
    {s : Scalar}
    (hs : ∀ b ∈ Text.foldScalar s, b.toNat < 0x80 ∧ b ≠ 0x6B ∧ b ≠ 0x73) :
    s.bytes.map Text.lowerByte = Text.foldScalar s := by
  cases s with
  | stray b =>
    have hlow : (0xEF : UInt8).toNat < 0x80 := (hs 0xEF List.mem_cons_self).1
    exact absurd hlow (by decide)
  | char c =>
    unfold Text.foldScalar at hs ⊢
    dsimp only at hs ⊢
    by_cases hone : c.toNat < 0x80
    · rw [if_pos hone, bytes, utf8EncodeChar_one hone, List.map_singleton]
    · rw [if_neg hone] at hs
      by_cases hkelvin : c.toNat = 0x212A
      · rw [if_pos hkelvin] at hs
        exact absurd rfl (hs 0x6B List.mem_cons_self).2.1
      · rw [if_neg hkelvin] at hs
        by_cases hlong : c.toNat = 0x17F
        · rw [if_pos hlong] at hs
          exact absurd rfl (hs 0x73 List.mem_cons_self).2.2
        · rw [if_neg hlong] at hs
          obtain ⟨b, hb, hhigh⟩ := exists_byte_high hone
          have hlow := (hs b hb).1
          omega

end Scalar

namespace Text

/-- A text that equals a word without K and S up to case has the bytes of the
word up to case. -/
theorem map_lowerByte_of_equalsFolded
    {t word : Text} (h : equalsFolded t word = true)
    (hword : ∀ b ∈ word.map lowerByte, b.toNat < 0x80 ∧ b ≠ 0x6B ∧ b ≠ 0x73) :
    t.map lowerByte = word.map lowerByte := by
  rw [equalsFolded, beq_iff_eq] at h
  rw [← h] at hword ⊢
  calc
    t.map lowerByte = ((scalars t).flatMap Scalar.bytes).map lowerByte := by
      rw [← ofScalars, ofScalars_scalars]
    _ = (scalars t).flatMap fun s => s.bytes.map lowerByte := List.map_flatMap
    _ = (scalars t).flatMap foldScalar := by
      apply List.flatMap_congr
      intro s hs
      exact Scalar.map_lowerByte_bytes fun b hb =>
        hword b (List.mem_flatMap.2 ⟨s, hs, hb⟩)

end Text

namespace Path

theorem extension_append_slash (s t : Text) :
    extension (s ++ slash :: t) = extension t := by
  cases hcut : Text.cutLast slash t with
  | none =>
    have hboth : Text.cutLast slash (s ++ slash :: t) = some (s, t) :=
      Text.cutLast_eq_some_iff.2 ⟨rfl, Text.cutLast_eq_none_iff.1 hcut⟩
    simp only [extension, hcut, hboth]
  | some p =>
    obtain ⟨rfl, hlast⟩ := Text.cutLast_eq_some_iff.1 hcut
    have hboth : Text.cutLast slash (s ++ slash :: (p.1 ++ slash :: p.2)) =
      some (s ++ slash :: p.1, p.2) :=
      Text.cutLast_eq_some_iff.2 ⟨by simp, hlast⟩
    simp only [extension, hcut, hboth]

theorem exists_eq_append_extension (p : Text) :
    ∃ stem, p = stem ++ extension p := by
  have hname : ∀ name : Text, slash ∉ name →
      ∃ stem, name = stem ++ extension name := by
    intro name hslash
    have hnone : Text.cutLast slash name = none :=
      Text.cutLast_eq_none_iff.2 hslash
    simp only [extension, hnone]
    cases hdot : Text.cutLast 0x2E name with
    | none => exact ⟨name, by simp⟩
    | some q => exact ⟨q.1, (Text.cutLast_eq_some_iff.1 hdot).1⟩
  cases hcut : Text.cutLast slash p with
  | none => exact hname p (Text.cutLast_eq_none_iff.1 hcut)
  | some q =>
    obtain ⟨heq, hlast⟩ := Text.cutLast_eq_some_iff.1 hcut
    obtain ⟨stem, hstem⟩ := hname q.2 hlast
    refine ⟨q.1 ++ slash :: stem, ?_⟩
    rw [heq, extension_append_slash]
    nth_rewrite 1 [hstem]
    simp

theorem splitOn_eq_concat (t : Text) :
    ∃ before last, Text.splitOn slash t = before ++ [last] ∧ slash ∉ last ∧
    extension t = extension last := by
  cases hcut : Text.cutLast slash t with
  | none =>
    have hnone := Text.cutLast_eq_none_iff.1 hcut
    exact ⟨[], t, Text.splitOn_eq_singleton hnone, hnone, rfl⟩
  | some q =>
    obtain ⟨rfl, hlast⟩ := Text.cutLast_eq_some_iff.1 hcut
    refine ⟨Text.splitOn slash q.1, q.2, ?_, hlast,
      extension_append_slash q.1 q.2⟩
    rw [Text.splitOn_append, Text.splitOn_eq_singleton hlast]

end Path

namespace Corpus

variable {e p id root : Text} {fs : FileSystem}

/-- An ending of a document, in whatever case. -/
def IsEnding (e : Text) : Prop :=
  e.map Text.lowerByte = ".xml"

instance (e : Text) : Decidable (IsEnding e) :=
  inferInstanceAs (Decidable (_ = _))

/-- The identities agree but for the case of the letters of their endings. -/
def CaseVariants (id id' : Text) : Prop :=
  ∃ stem e e', id = stem ++ e ∧ id' = stem ++ e' ∧ IsEnding e ∧ IsEnding e'

theorem IsEnding.length_eq (he : IsEnding e) :
    e.length = 4 := by
  have hlength := congrArg List.length he
  rw [List.length_map] at hlength
  exact hlength

theorem isEnding_of_hasDocumentExtension (h : hasDocumentExtension p = true) :
    IsEnding (Path.extension p) := by
  have hword : (Text.ofString ".xml").map Text.lowerByte = ".xml" := by decide
  have hplain : (Text.ofString ".xml").all fun b => b.toNat < 0x80 ∧ b ≠ 0x6B ∧
    b ≠ 0x73 := by decide
  have hfolded := Text.map_lowerByte_of_equalsFolded h (by
    rw [hword]
    intro b hb
    exact of_decide_eq_true (List.all_eq_true.1 hplain b hb))
  rwa [hword] at hfolded

/-- An ending of a path is its extension, if the path has such an extension. -/
theorem IsEnding.eq_extension {stem : Text} (he : IsEnding e)
    (hextension : IsEnding (Path.extension (stem ++ e))) :
    Path.extension (stem ++ e) = e := by
  obtain ⟨front, hfront⟩ := Path.exists_eq_append_extension (stem ++ e)
  have hlength : e.length = (Path.extension (stem ++ e)).length := by
    rw [he.length_eq, hextension.length_eq]
  exact (List.append_inj_right' hfront hlength).symm

theorem importPath_append {stem : Text}
    (hextension : Path.extension (stem ++ e) = e) (base : Text) :
    importPath base (stem ++ e) =
      if ((Text.stripBack? "/" base).getD base).isEmpty then stem
      else (Text.stripBack? "/" base).getD base ++ "/" ++ stem := by
  rw [importPath, hextension, Text.stripBack?_append, Option.getD_some]

theorem importPath_eq_iff {id' : Text} (hid : IsEnding (Path.extension id))
    (hid' : IsEnding (Path.extension id')) (base : Text) :
    importPath base id = importPath base id' ↔ CaseVariants id id' := by
  constructor
  · intro h
    obtain ⟨stem, hstem⟩ := Path.exists_eq_append_extension id
    obtain ⟨stem', hstem'⟩ := Path.exists_eq_append_extension id'
    rw [hstem, importPath_append (by rw [← hstem]), hstem',
      importPath_append (by rw [← hstem'])] at h
    have hsame : stem = stem' := by
      split at h
      · exact h
      · exact List.append_cancel_left h
    exact ⟨stem, _, _, hstem, hsame ▸ hstem', hid, hid'⟩
  · rintro ⟨stem, e, e', rfl, rfl, he, he'⟩
    rw [importPath_append (he.eq_extension hid),
      importPath_append (he'.eq_extension hid')]

/-! ## What is found -/

theorem exists_segments_eq_concat (h : IsEnding (Path.extension p)) :
    ∃ front last, Path.segments p = front ++ [last] ∧ Path.extension last =
    Path.extension p := by
  obtain ⟨front, last, hsplit, -, hextension⟩ := Path.splitOn_eq_concat p
  rw [hextension] at h ⊢
  have hnonempty : last ≠ [] := by
    rintro rfl
    exact absurd h (by decide)
  have hdot : last ≠ "." := by
    rintro rfl
    exact absurd h (by decide)
  refine ⟨front.filter fun s => !(s.isEmpty || s == "."), last, ?_, rfl⟩
  rw [Path.segments, hsplit, List.filter_append]
  simp [hnonempty, hdot]

theorem extension_join_concat (front : List Text) (last : Text) :
    Path.extension (Text.join "/" (front ++ [last])) = Path.extension last := by
  by_cases hfront : front = []
  · rw [hfront]
    rfl
  · rw [Text.join_concat hfront, List.append_assoc]
    exact Path.extension_append_slash _ last

theorem extension_of_identity (h : IsEnding (Path.extension p))
    (hid : identity (Text.join "/" (Path.segments p)) = .ok id) :
    Path.extension id = Path.extension p := by
  obtain ⟨front, last, hsegments, hlast⟩ := exists_segments_eq_concat h
  have hsegment : ∀ s ∈ Path.segments p, Path.IsSegment s := fun s hs =>
    Path.isSegment_of_mem_segments hs
  have hdown : Path.up ∉ [last] := by
    rw [List.mem_singleton]
    rintro rfl
    rw [← hlast] at h
    exact absurd h (by decide)
  have hclean : id = Path.clean (Text.join "/" (Path.segments p)) := by
    unfold identity at hid
    grind
  rw [hclean, Path.clean_eq_ofSegments, Path.reduced,
    Path.segments_join hsegment, hsegments, Path.reduce_append _ _ hdown,
    ← hlast]
  generalize Path.reduce _ front = kept
  have hjoin : Path.extension (Text.join "/" (kept ++ [last])) =
    Path.extension last :=
    extension_join_concat kept last
  unfold Path.ofSegments
  dsimp only
  split
  · rw [← hjoin]
    exact Path.extension_append_slash [] _
  · split
    next hempty =>
      rw [List.isEmpty_iff.1 hempty] at hjoin
      rw [← hlast, ← hjoin] at h
      exact absurd h (by decide)
    next => exact hjoin

theorem extension_of_mem_below {segs : List Text} {node : Node}
    (h : (segs, p, node) ∈ fs.below root) :
    ∃ rest, segs = Path.segments rest ∧ Path.extension p =
      Path.extension rest := by
  have hlead : ∃ front, (if fs.locate root == "/" then fs.locate root
      else fs.locate root ++ "/") =
      front ++ [Path.slash] := by
    by_cases hroot : fs.locate root = "/"
    · exact ⟨[], by rw [hroot]; rfl⟩
    · rw [if_neg (by simpa using hroot)]
      exact ⟨fs.locate root, rfl⟩
  obtain ⟨front, hfront⟩ := hlead
  unfold FileSystem.below at h
  dsimp only at h
  rw [hfront] at h
  obtain ⟨⟨q, m⟩, -, hentry⟩ := List.mem_filterMap.1 h
  dsimp only at hentry
  split at hentry
  next rest hstrip =>
    split at hentry
    next => cases hentry
    next =>
      cases hentry
      refine ⟨rest, rfl, ?_⟩
      rw [Text.stripFront?_eq_some_iff.1 hstrip, List.append_assoc]
      exact Path.extension_append_slash front rest
  next => cases hentry

/-- What is found has the extension of a document. -/
theorem isEnding_of_discover {patterns ids : List Text}
    (h : discover fs root patterns = .ok ids) (hid : id ∈ ids) :
    IsEnding (Path.extension id) := by
  rcases discover_eq_ok h with rfl | ⟨all, hall, rfl⟩
  · cases hid
  · rw [Text.sort, List.mem_mergeSort, List.mem_filter] at hid
    obtain ⟨⟨segs, p, node⟩, hentry, hidentity⟩ :=
      exists_mem_of_mem_mapM hall hid.1
    obtain ⟨hbelow, hkept⟩ := List.mem_filter.1 hentry
    obtain ⟨rest, hsegs, hextension⟩ := extension_of_mem_below hbelow
    have hending : IsEnding (Path.extension rest) := by
      rw [← hextension]
      apply isEnding_of_hasDocumentExtension
      simp only [Bool.not_eq_true', Bool.or_eq_false_iff, Bool.not_eq_false']
        at hkept
      exact hkept.2
    dsimp only at hidentity
    rw [hsegs] at hidentity
    cases hok : identity (Text.join "/" (Path.segments rest)) with
    | error e =>
      rw [hok] at hidentity
      cases hidentity
    | ok x =>
      rw [hok] at hidentity
      cases hidentity
      rwa [extension_of_identity hending hok]

end Corpus

/-! ## Import paths and aliases -/

namespace Registry

/-- Two documents of a corpus have one import path exactly if they differ in the
case of their endings at most, and no others have one alias. -/
theorem importPath_eq_iff_caseVariants
    {fs : FileSystem} {root : Text} {patterns ids : List Text}
    (hdiscover : Corpus.discover fs root patterns = .ok ids)
    {base : Text} {rules : NamingRules} {docs : List Document}
    (hdocs : ∀ d ∈ docs, d.path ∈ ids ∧
      d.importPath = Corpus.importPath base d.path)
    {r : Registry} (hbuild : build rules docs = .ok r)
    {m n : Registration} (hm : m ∈ r.documents) (hn : n ∈ r.documents) :
    (m.importPath = n.importPath ↔ Corpus.CaseVariants m.document n.document) ∧
      (m.aliasName = n.aliasName →
      Corpus.CaseVariants m.document n.document) := by
  obtain ⟨-, hindexed⟩ := indexed_of_build hbuild
  have hfound : ∀ m ∈ r.documents,
      Corpus.IsEnding (Path.extension m.document) ∧
      m.importPath = Corpus.importPath base m.document := by
    intro m hm
    have hunnamed : m.unnamed ∈ docs.map fun d => register d [] false := by
      rw [← hindexed.registered]
      exact List.mem_map_of_mem hm
    obtain ⟨d, hd, heq⟩ := List.mem_map.1 hunnamed
    have hdocument : d.path = m.document := congrArg Registration.document heq
    have himport : d.importPath = m.importPath :=
      congrArg Registration.importPath heq
    obtain ⟨hpath, hbelow⟩ := hdocs d hd
    rw [← hdocument, ← himport]
    exact ⟨Corpus.isEnding_of_discover hdiscover hpath, hbelow⟩
  obtain ⟨hmEnding, hmImport⟩ := hfound m hm
  obtain ⟨hnEnding, hnImport⟩ := hfound n hn
  have himports : m.importPath = n.importPath ↔
      Corpus.CaseVariants m.document n.document := by
    rw [hmImport, hnImport]
    exact Corpus.importPath_eq_iff hmEnding hnEnding base
  refine ⟨himports, ?_⟩
  intro halias
  apply himports.1
  have howner := hindexed.bound m hm
  rw [halias, hindexed.bound n hn] at howner
  exact (Option.some.inj howner).symm

/-- Documents without content that were found under the identities `ids` and
are imported below `p`. -/
def blank (ids : List Text) : List Document :=
  ids.map fun id => { path := id, importPath := Corpus.importPath "p/" id }

/-- A corpus with files of one name in two directories, and with endings in
several cases. -/
def nested : FileSystem where
  nodes :=
    [("/c", .directory), ("/c/a.xml", .file []), ("/c/a.b.XML", .file []),
      ("/c/b", .directory), ("/c/b/a.Xml", .file [])]

/-- The files of one name in two directories are told apart. -/
theorem nested_told_apart :
    ∃ r m n, build {} (blank ["a.b.XML", "a.xml", "b/a.Xml"]) = .ok r ∧
    m ∈ r.documents ∧ n ∈ r.documents ∧
      m.document = "a.xml" ∧ n.document = "b/a.Xml" ∧
      ¬Corpus.CaseVariants m.document n.document ∧ m.importPath ≠ n.importPath ∧
      (m.aliasName = n.aliasName →
      Corpus.CaseVariants m.document n.document) := by
  have hdiscover : Corpus.discover nested "/c" [] =
      .ok ["a.b.XML", "a.xml", "b/a.Xml"] := by
    have hcandidates : Corpus.candidates nested "/c" =
        .ok ["a.xml", "a.b.XML", "b/a.Xml"] := by
      decide +kernel
    rw [Corpus.discover_nil_eq_ok (by decide +kernel)
      (by decide +kernel) hcandidates]
    cbv
  have hdocs : ∀ d ∈ blank ["a.b.XML", "a.xml", "b/a.Xml"],
      d.path ∈ [Text.ofString "a.b.XML", "a.xml", "b/a.Xml"] ∧
        d.importPath = Corpus.importPath "p/" d.path := by
    decide +kernel
  have hbuild : (build {} (blank ["a.b.XML", "a.xml", "b/a.Xml"])).map (fun r =>
      r.documents.map fun m => (m.document, m.importPath)) =
      .ok [(Text.ofString "a.b.XML", Text.ofString "p/a.b"), ("a.xml", "p/a"),
      ("b/a.Xml", "p/b/a")] := by
    decide +kernel
  obtain ⟨r, hr, hnames⟩ := Chain.map_eq_ok_iff.1 hbuild
  have hfound :
      ∀ x ∈ [(Text.ofString "a.b.XML", Text.ofString "p/a.b"), ("a.xml", "p/a"),
      ("b/a.Xml", "p/b/a")],
      ∃ m ∈ r.documents, m.document = x.1 ∧ m.importPath = x.2 := by
    intro x hx
    rw [← hnames] at hx
    obtain ⟨m, hm, rfl⟩ := List.mem_map.1 hx
    exact ⟨m, hm, rfl, rfl⟩
  obtain ⟨m, hm, hmDocument, hmImport⟩ := hfound ("a.xml", "p/a") (by decide)
  obtain ⟨n, hn, hnDocument, hnImport⟩ :=
    hfound ("b/a.Xml", "p/b/a") (by decide)
  have hne : m.importPath ≠ n.importPath := by
    rw [hmImport, hnImport]
    decide
  obtain ⟨himports, halias⟩ :=
    importPath_eq_iff_caseVariants hdiscover hdocs hr hm hn
  exact ⟨r, m, n, hr, hm, hn, hmDocument, hnDocument, fun h =>
    hne (himports.2 h), hne, halias⟩

/-- A corpus with two files that differ in the case of their endings only. -/
def twins : FileSystem where
  nodes := [("/c", .directory), ("/c/a.xml", .file []), ("/c/a.XML", .file [])]

/-- Both are documents, and they share import path and alias. -/
theorem twins_share_namespace :
    Corpus.discover twins "/c" [] = .ok ["a.XML", "a.xml"] ∧
      (build {} (blank ["a.XML", "a.xml"])).map (fun r =>
          r.documents.map fun m => (m.document, m.importPath, m.aliasName)) =
        .ok [(Text.ofString "a.XML", Text.ofString "p/a", Text.ofString "a"),
          ("a.xml", "p/a", "a")] := by
  have hcandidates : Corpus.candidates twins "/c" = .ok ["a.xml", "a.XML"] := by
    decide +kernel
  rw [Corpus.discover_nil_eq_ok (by decide +kernel)
    (by decide +kernel) hcandidates]
  constructor
  · cbv
  · decide +kernel

end Registry

end ProtocolCorpus
