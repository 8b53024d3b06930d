import ProtocolCorpus.Proofs.Emission
import ProtocolCorpus.Proofs.References

/-!
# The index of declarations

A registry lists the declarations of an interface by import path, protocol and
document. The list is complete: it holds each declaration of the corpus once,
with what is registered for its document. Declarations of one document are tied
in the order, and sorting keeps them as they are declared. So the first
declaration of the root document is also the first that the document itself
finds under the name.
-/

namespace ProtocolCorpus

/-! ## Which document is the root -/

namespace NamingRules

/-- The document that declares the root protocol: the first one of that name. -/
def rootOf? (rules : NamingRules) (docs : List Document) : Option Document :=
  if rules.rootProtocol.isEmpty then none
  else docs.find? fun d => Alias.protocolName d == rules.rootProtocol

theorem mem_of_rootOf?_eq_some
    {rules : NamingRules} {docs : List Document} {d : Document}
    (h : rules.rootOf? docs = some d) :
    d ∈ docs := by
  unfold rootOf? at h
  split at h
  next => cases h
  next => exact List.mem_of_find?_eq_some h

end NamingRules

/-! ## Names -/

namespace ImportGraph

theorem head?_joinEqual (a : Text) (rest : List Text) :
    (joinEqual (a :: rest)).head? = some a := by
  induction rest generalizing a with
  | nil => rfl
  | cons b rest ih =>
    rw [joinEqual]
    split
    next heq => rw [ih, heq]
    next => rfl

end ImportGraph

namespace Registry

theorem names_eq_joinEqual (r : Registry) :
    r.names =
    ImportGraph.joinEqual
    (Text.sort (r.declarations.map fun o => o.declaration.name)) := by
  unfold names
  generalize Text.sort (r.declarations.map fun o => o.declaration.name) = sorted
  induction sorted with
  | nil => rfl
  | cons a rest ih =>
    rw [List.foldr_cons, ih]
    cases rest with
    | nil => rfl
    | cons b rest =>
      rw [ImportGraph.head?_joinEqual, ImportGraph.joinEqual]
      by_cases heq : a = b
      · simp [heq]
      · simp [heq, Ne.symm heq]

/-! ## All declarations of a corpus -/

def aliasOf (r : Registry) (d : Document) : Text :=
  ((r.document? d.path).map Registration.aliasName).getD []

/-- The declaration of an interface in a document, with what there is to know of
the document. -/
def declarationIn (r : Registry) (d : Document) (i : Interface) : Owner where
  document := d.path
  protocol := Alias.protocolName d
  module := Naming.moduleName (Alias.protocolName d)
  name := shortName i.name
  aliasName := r.aliasOf d
  importPath := d.importPath
  declaration := i

section Indexed

variable {docs : List Document} {r : Registry} {d : Document}

theorem Indexed.declarationsOf_eq (h : Indexed docs r) {m : Registration}
    (hmem : (d, m) ∈ docs.zip r.documents) :
    declarationsOf d m = d.interfaces.map (r.declarationIn d) := by
  have hunnamed := h.unnamed_eq_of_mem_zip hmem
  have hdocument : m.document = d.path :=
    congrArg Registration.document hunnamed
  have hprotocol : m.protocol = Alias.protocolName d :=
    congrArg Registration.protocol hunnamed
  have hmodule : m.module = Naming.moduleName (Alias.protocolName d) :=
    congrArg Registration.module hunnamed
  have himport : m.importPath = d.importPath :=
    congrArg Registration.importPath hunnamed
  have halias : r.aliasOf d = m.aliasName := by
    rw [aliasOf, ← hdocument, h.document?_eq_some (List.of_mem_zip hmem).2]
    rfl
  apply List.map_congr_left
  intro i _
  simp only [declarationIn, hdocument, hprotocol, hmodule, himport, halias,
    Interface.short]

theorem Indexed.declarations_eq (h : Indexed docs r) :
    r.declarations = docs.flatMap fun d =>
      d.interfaces.map (r.declarationIn d) := by
  calc
    r.declarations = (docs.zip r.documents).flatMap fun x =>
      declarationsOf x.1 x.2 := h.declared
    _ = (docs.zip r.documents).flatMap fun x =>
      x.1.interfaces.map (r.declarationIn x.1) :=
      List.flatMap_congr fun x hx => h.declarationsOf_eq hx
    _ = ((docs.zip r.documents).map Prod.fst).flatMap fun d =>
      d.interfaces.map (r.declarationIn d) := by
      rw [List.flatMap_map]
    _ = docs.flatMap fun d => d.interfaces.map (r.declarationIn d) := by
      rw [List.map_fst_zip (Nat.le_of_eq h.length_eq)]

theorem filter_map_declarationIn (name : Text) (d : Document) :
    (d.interfaces.map (r.declarationIn d)).filter
    (fun o => o.declaration.name == name) =
      (d.interfaces.filter fun i => i.name == name).map
      (r.declarationIn d) := by
  rw [List.filter_map]
  rfl

theorem Indexed.filter_declarations_eq (h : Indexed docs r) (name : Text) :
    (r.declarations.filter fun o => o.declaration.name == name) =
      docs.flatMap fun d => (d.interfaces.filter fun i => i.name == name).map
      (r.declarationIn d) := by
  rw [h.declarations_eq, List.filter_flatMap]
  exact List.flatMap_congr fun d _ => filter_map_declarationIn name d

theorem Indexed.mem_names_iff (h : Indexed docs r) {name : Text} :
    name ∈ r.names ↔ ∃ d ∈ docs, ∃ i ∈ d.interfaces, i.name = name := by
  rw [names_eq_joinEqual, ImportGraph.mem_joinEqual_iff, Text.sort,
    List.mem_mergeSort, h.declarations_eq, List.map_flatMap, List.mem_flatMap]
  simp only [List.map_map, List.mem_map]
  rfl

theorem pairwise_names (r : Registry) :
    r.names.Pairwise fun a b => Text.before a b = true := by
  rw [names_eq_joinEqual]
  exact ImportGraph.pairwise_joinEqual
    (List.pairwise_mergeSort Text.le_trans Text.le_total _)

/-- A document is registered, and its alias stands for its import path. -/
theorem Indexed.exists_registration (h : Indexed docs r) (hd : d ∈ docs) :
    ∃ m ∈ r.documents, r.document? d.path = some m ∧
    m.unnamed = register d [] false := by
  obtain ⟨k, hk, rfl⟩ := List.mem_iff_getElem.1 hd
  have hregistered : k < r.documents.length := h.length_eq ▸ hk
  have hzip : (docs[k], r.documents[k]) ∈ docs.zip r.documents := by
    rw [List.mem_iff_getElem]
    exact ⟨k, by simp [hk, hregistered], List.getElem_zip⟩
  have hunnamed := h.unnamed_eq_of_mem_zip hzip
  have hdocument : r.documents[k].document = docs[k].path :=
    congrArg Registration.document hunnamed
  have hmem : r.documents[k] ∈ r.documents := List.getElem_mem hregistered
  exact ⟨r.documents[k], hmem, hdocument ▸ h.document?_eq_some hmem, hunnamed⟩

/-! ## The declarations of one document -/

theorem Indexed.filter_document (h : Indexed docs r) (hd : d ∈ docs)
    (name : Text) :
    ((r.declarations.filter fun o => o.declaration.name == name).filter fun o =>
      o.document == d.path) =
      (d.interfaces.filter fun i => i.name == name).map
      (r.declarationIn d) := by
  rw [h.filter_declarations_eq, List.filter_flatMap]
  obtain ⟨front, back, rfl⟩ := List.append_of_mem hd
  have hpaths := h.distinct
  rw [List.map_append, List.map_cons, List.nodup_middle, List.nodup_cons,
    ← List.map_append] at hpaths
  -- No other document has the path, so only `d` contributes.
  have hother : ∀ e ∈ front ++ back,
      ((e.interfaces.filter fun i => i.name == name).map
      (r.declarationIn e)).filter
        (fun o => o.document == d.path) = [] := by
    intro e he
    rw [List.filter_eq_nil_iff]
    intro o ho
    obtain ⟨i, -, rfl⟩ := List.mem_map.1 ho
    have hne : e.path ≠ d.path := fun heq =>
      hpaths.1 (heq ▸ List.mem_map_of_mem he)
    simpa [declarationIn] using hne
  have hself :
      ((d.interfaces.filter fun i => i.name == name).map
      (r.declarationIn d)).filter
      (fun o => o.document == d.path) =
        (d.interfaces.filter fun i => i.name == name).map
        (r.declarationIn d) := by
    rw [List.filter_eq_self]
    intro o ho
    obtain ⟨i, -, rfl⟩ := List.mem_map.1 ho
    simp [declarationIn]
  rw [List.forall_mem_append] at hother
  rw [List.flatMap_append, List.flatMap_cons,
    List.flatMap_eq_nil_iff.2 hother.1, List.flatMap_eq_nil_iff.2 hother.2,
    hself, List.nil_append, List.append_nil]

/-- Declarations of one document are listed as they stand in it. -/
theorem Indexed.filter_owners (h : Indexed docs r) (hd : d ∈ docs)
    (name : Text) :
    ((r.owners name).filter fun o => o.document == d.path) =
      (d.interfaces.filter fun i => i.name == name).map
      (r.declarationIn d) := by
  have hstable : ((r.owners name).filter fun o => o.document == d.path) =
      (r.declarations.filter fun o => o.declaration.name == name).filter
      fun o => o.document == d.path := by
    apply filter_mergeSort_of_tied Owner.ordered_trans Owner.ordered_total
    have hsame :
        ∀ o ∈ r.declarations.filter (fun o => o.declaration.name == name),
        (o.document == d.path) = true → ∃ i, o = r.declarationIn d i := by
      intro o ho hdocument
      have hmem : o ∈ (d.interfaces.filter fun i => i.name == name).map
          (r.declarationIn d) := by
        rw [← h.filter_document hd]
        exact List.mem_filter.2 ⟨ho, hdocument⟩
      obtain ⟨i, -, rfl⟩ := List.mem_map.1 hmem
      exact ⟨i, rfl⟩
    intro a ha b hb hda hdb
    obtain ⟨i, rfl⟩ := hsame a ha hda
    obtain ⟨j, rfl⟩ := hsame b hb hdb
    exact Owner.ordered_of_eq rfl rfl rfl
  rw [hstable, h.filter_document hd]

/-! ## The declarations of the root document -/

theorem Indexed.rootDocument?_map_document (h : Indexed docs r) :
    r.rootDocument?.map Registration.document =
    (r.rules.rootOf? docs).map Document.path := by
  have hpairs : r.documents.map (fun m => (m.document, m.protocol)) =
      docs.map fun d => (d.path, Alias.protocolName d) := by
    have hmap :=
      congrArg (List.map fun m => (m.document, m.protocol)) h.registered
    simpa only [List.map_map, Function.comp_def, Registration.unnamed, register]
      using hmap
  have hfind :=
    congrArg
      (fun l => (l.find? fun x => x.2 == r.rules.rootProtocol).map Prod.fst)
      hpairs
  simp only [List.find?_map, Option.map_map, Function.comp_def] at hfind
  unfold rootDocument? NamingRules.rootOf?
  split
  next => rfl
  next => exact hfind

theorem Indexed.root_iff_path
    (h : Indexed docs r) {m : Registration} (hm : m ∈ r.documents) :
    m.root = true ↔ (r.rules.rootOf? docs).map Document.path =
      some m.document := by
  rw [h.root_iff_rootDocument? hm, ← h.rootDocument?_map_document]
  constructor
  · intro hroot
    rw [hroot, Option.map_some]
  · intro hpath
    obtain ⟨n, hn, hdocument⟩ := Option.map_eq_some_iff.1 hpath
    have hmem : n ∈ r.documents := by
      have hroots : n ∈ r.documents.filter Registration.root := by
        rw [h.roots, Option.mem_toList]
        exact hn
      exact (List.mem_filter.1 hroots).1
    have hsame := h.document?_eq_some hmem
    rw [hdocument, h.document?_eq_some hm] at hsame
    rw [hn, Option.some.inj hsame]

/-- The declaration in the root document is the first one that the document
finds under the name. -/
theorem Indexed.rootOwner?_eq (h : Indexed docs r) (name : Text) :
    r.rootOwner? name =
      (r.rules.rootOf? docs).bind fun d =>
      (d.interface? name).map (r.declarationIn d) := by
  have hflag : ∀ o ∈ r.owners name,
      ((r.document? o.document).map Registration.root).getD false = true ↔
      (r.rules.rootOf? docs).map Document.path = some o.document := by
    intro o ho
    obtain ⟨m, hm, hdocument, -⟩ := h.exists_document (mem_owners_iff.1 ho).1
    rw [hdocument, h.document?_eq_some hm, Option.map_some, Option.getD_some,
      h.root_iff_path hm]
  unfold rootOwner?
  cases hroot : r.rules.rootOf? docs with
  | none =>
    rw [Option.bind_none, List.find?_eq_none]
    intro o ho
    rw [hflag o ho, hroot]
    simp
  | some d =>
    have hd : d ∈ docs := NamingRules.mem_of_rootOf?_eq_some hroot
    have hdocument : ∀ o ∈ r.owners name,
        ((r.document? o.document).map Registration.root).getD false =
        (o.document == d.path) := by
      intro o ho
      rw [Bool.eq_iff_iff, hflag o ho, hroot, Option.map_some,
        Option.some.injEq, beq_iff_eq, eq_comm]
    rw [List.find?_congr hdocument, ← List.head?_filter, h.filter_owners hd,
      List.head?_map, List.head?_filter, ← Document.interface?_eq_find?,
      Option.bind_some]

theorem Indexed.rootOwner?_map_declaration (h : Indexed docs r) (name : Text) :
    (r.rootOwner? name).map Owner.declaration =
      (r.rules.rootOf? docs).bind fun d => d.interface? name := by
  rw [h.rootOwner?_eq, Option.map_bind]
  simp [Function.comp_def, declarationIn]

end Indexed

/-- What the index of the declarations of a corpus has to be. -/
structure IndexesAll (docs : List Document) (r : Registry) : Prop where
  /-- Every declaration of a name is listed once, with what there is to know of
  its document. -/
  owners_perm : ∀ name, (r.owners name).Perm
    (docs.flatMap fun d => (d.interfaces.filter fun i => i.name == name).map
    (r.declarationIn d))
  /-- Every document is registered, with an alias that stands for its import
  path. -/
  registered : ∀ d ∈ docs, ∃ m, r.document? d.path = some m ∧
    m.unnamed = register d [] false ∧
    m.aliasName = r.aliasOf d ∧ r.aliasOwner? m.aliasName = some d.importPath
  ascending : ∀ name, (r.owners name).Pairwise Owner.Ascending
  names_ascending : r.names.Pairwise fun a b => Text.before a b = true
  mem_names_iff : ∀ name, name ∈ r.names ↔ ∃ d ∈ docs, ∃ i ∈ d.interfaces,
    i.name = name
  /-- The root is the first document of the root protocol. -/
  root_iff : ∀ d ∈ docs, ∀ m, r.document? d.path = some m →
    (m.root = true ↔ r.rules.rootOf? docs = some d)
  rootOwner?_isSome_iff : ∀ name, (r.rootOwner? name).isSome = true ↔
    ∃ d ∈ r.rules.rootOf? docs, ∃ i ∈ d.interfaces, i.name = name
  rootOwner?_eq : ∀ name, r.rootOwner? name =
    (r.rules.rootOf? docs).bind fun d =>
    (d.interface? name).map (r.declarationIn d)

/-- However a registry is built, its index of declarations is complete and in
order. -/
theorem indexesAll_of_build
    {rules : NamingRules} {docs : List Document} {r : Registry}
    (hbuild : build rules docs = .ok r) :
    r.rules = rules ∧ IndexesAll docs r := by
  obtain ⟨hrules, h⟩ := indexed_of_build hbuild
  refine ⟨hrules, ?_⟩
  constructor
  case owners_perm =>
    intro name
    rw [← h.filter_declarations_eq]
    exact owners_perm r name
  case registered =>
    intro d hd
    obtain ⟨m, hm, hdocument, hunnamed⟩ := h.exists_registration hd
    refine ⟨m, hdocument, hunnamed, by rw [aliasOf, hdocument]; rfl, ?_⟩
    rw [h.bound m hm]
    exact congrArg (some ∘ Registration.importPath) hunnamed
  case ascending =>
    exact fun name => (owners_pairwise r name).imp Owner.ascending_of_ordered
  case names_ascending => exact pairwise_names r
  case mem_names_iff => exact fun name => h.mem_names_iff
  case root_iff =>
    intro d hd m hm
    have hmem : m ∈ r.documents := List.mem_of_find?_eq_some hm
    have hpath : m.document = d.path := by simpa using List.find?_some hm
    rw [h.root_iff_path hmem, hpath]
    constructor
    · intro hroot
      obtain ⟨e, he, hsame⟩ := Option.map_eq_some_iff.1 hroot
      rw [he, List.inj_on_of_nodup_map h.distinct
        (NamingRules.mem_of_rootOf?_eq_some he) hd hsame]
    · intro hroot
      rw [hroot, Option.map_some]
  case rootOwner?_isSome_iff =>
    intro name
    rw [h.rootOwner?_eq]
    cases r.rules.rootOf? docs with
    | none => simp
    | some d => simp [Document.interface?_eq_find?]
  case rootOwner?_eq => exact h.rootOwner?_eq

/-- A corpus with an interface that two documents declare, one of them twice, a
document without a protocol, and a second document of the root protocol. -/
def catalogue : List Document :=
  let display : Interface := { name := "wl_display" }
  let tool (version : Int) : Interface := { name := "zwp_tool", version }
  [{ path := "a.xml", importPath := "p/z",
     protocol := some { name := "tablet", interfaces := [tool 1] } },
    { path := "b.xml", importPath := "p/b" },
    { path := "c.xml", importPath := "p/c",
      protocol :=
        some { name := "wayland", interfaces := [tool 2, display, tool 3] } },
    { path := "d.xml", importPath := "p/a",
      protocol :=
        some { name := "wayland", interfaces := [{ name := "wl_seat" }] } }]

theorem indexesAll_catalogue :
    ∃ r, build {} catalogue = .ok r ∧ IndexesAll catalogue r ∧
      (r.owners "zwp_tool").map
      (fun o => (o.document, o.aliasName, o.declaration.version)) =
        [(Text.ofString "c.xml", Text.ofString "wl", 2), ("c.xml", "wl", 3),
        ("a.xml", "zwp_tool", 1)] ∧
      r.names = ["wl_display", "wl_seat", "zwp_tool"].map Text.ofString ∧
      (r.rootOwner? "zwp_tool").map (fun o => o.declaration.version) = some 2 ∧
      (r.rootOwner? "wl_seat").isSome = false := by
  have hbuild : (build {} catalogue).map (fun r =>
      ((r.owners "zwp_tool").map
      (fun o => (o.document, o.aliasName, o.declaration.version)), r.names,
        (r.rootOwner? "zwp_tool").map (fun o => o.declaration.version),
        (r.rootOwner? "wl_seat").isSome)) =
      .ok ([(Text.ofString "c.xml", Text.ofString "wl", 2), ("c.xml", "wl", 3),
        ("a.xml", "zwp_tool", 1)],
        ["wl_display", "wl_seat", "zwp_tool"].map Text.ofString, some 2,
        false) := by
    cbv
  obtain ⟨r, hr, hlisted⟩ := Chain.map_eq_ok_iff.1 hbuild
  simp only [Prod.mk.injEq] at hlisted
  exact ⟨r, hr, (indexesAll_of_build hr).2, hlisted⟩

end Registry

end ProtocolCorpus
