import Mathlib
import ProtocolCorpus.Proofs.References
import ProtocolCorpus.Proofs.Rejection
import ProtocolCorpus.Proofs.Sites

/-!
# What a resolved document imports and what is reported on it

The aliases of a registry stand for one import path each. Hence two documents
are never needed under one alias, and what is reported on an argument does not
depend on the arguments before it. This module shows that resolution is exact: a
reference has a meaning unless an error is reported on its argument, and
the imports are the qualifiers of the references with a meaning, apart from the
document itself and the root.
-/

namespace ProtocolCorpus

namespace Resolution

variable {qs : List Text} {p : Progress}

/-! ## The documents needed so far -/

/-- The documents needed so far are those of the qualifiers `qs`, and an alias
stands for one import path. -/
structure Collected (r : Registry) (qs : List Text) (p : Progress) : Prop where
  bound : ∀ e ∈ p.edges, r.aliasOwner? e.1 = some e.2.importPath
  nodup : (p.edges.map Prod.fst).Nodup
  mem_iff : ∀ q, q ∈ p.edges.map Prod.fst ↔ q ∈ qs ∧ q ≠ [] ∧
    q ≠ r.rules.rootAlias

theorem collected_nil (r : Registry) :
    Collected r [] {} := by
  constructor
  case bound =>
    intro e he
    cases he
  case nodup => exact List.nodup_nil
  case mem_iff => simp

theorem Collected.report {r : Registry} (h : Collected r qs p)
    (x : Diagnostic) :
    Collected r qs (p.report x) :=
  ⟨h.bound, h.nodup, h.mem_iff⟩

theorem Collected.reject {r : Registry} (h : Collected r qs p)
    (x : Diagnostic) :
    Collected r qs (p.reject x) :=
  ⟨h.bound, h.nodup, h.mem_iff⟩

/-- A qualifier that needs no import, or one that is there already, changes
nothing. -/
theorem Collected.skip {r : Registry} (h : Collected r qs p) {q : Text}
    (hq : q = [] ∨ q = r.rules.rootAlias ∨ q ∈ p.edges.map Prod.fst) :
    Collected r (qs ++ [q]) p := by
  refine ⟨h.bound, h.nodup, ?_⟩
  intro x
  rw [h.mem_iff, List.mem_append, List.mem_singleton]
  constructor
  · rintro ⟨hx, hne, hroot⟩
    exact ⟨.inl hx, hne, hroot⟩
  · rintro ⟨hx | rfl, hne, hroot⟩
    · exact ⟨hx, hne, hroot⟩
    · rcases hq with hq | hq | hq
      · exact absurd hq hne
      · exact absurd hq hroot
      · exact (h.mem_iff x).1 hq

/-- A new alias is added behind the others. -/
theorem Collected.push {r : Registry} (h : Collected r qs p) {o : Owner}
    (hbound : r.aliasOwner? o.aliasName = some o.importPath)
    (hnew : o.aliasName ∉ p.edges.map Prod.fst) (hne : o.aliasName ≠ [])
    (hroot : o.aliasName ≠ r.rules.rootAlias) :
    Collected r (qs ++ [o.aliasName]) { p with
        edges := p.edges ++ [(o.aliasName, o)] } := by
  constructor
  case bound =>
    intro e he
    rcases List.mem_append.1 he with he | he
    · exact h.bound e he
    · rw [List.mem_singleton.1 he]
      exact hbound
  case nodup =>
    rw [List.map_append]
    exact List.Nodup.append h.nodup (List.nodup_singleton _)
      (List.disjoint_singleton.2 hnew)
  case mem_iff =>
    intro q
    rw [List.map_append, List.mem_append, h.mem_iff, List.mem_append,
      List.map_singleton, List.mem_singleton]
    constructor
    · rintro (⟨hq, hrest⟩ | rfl)
      · exact ⟨.inl hq, hrest⟩
      · exact ⟨.inr rfl, hne, hroot⟩
    · rintro ⟨hq | rfl, hrest⟩
      · exact .inl ⟨hq, hrest⟩
      · exact .inr rfl

section Visit

variable {docs : List Document} {r : Registry} (hr : Registry.Indexed docs r)
  {d : Document} (hd : d ∈ docs)

include hr hd

/-- The document of a declaration is needed, and nothing is reported on that. -/
theorem Collected.need
    {qs : List Text} {p : Progress} (h : Collected r qs p) (place : Coordinates)
    (span : Span) {o : Owner} (ho : o ∈ r.declarations)
    (hnone : d.interface? o.declaration.name = none) :
    Collected r (qs ++ [o.aliasName]) (p.need r d place span o) ∧
      (p.need r d place span o).diagnostics = p.diagnostics := by
  have hother : ¬(o.document == d.path) = true := by
    rw [beq_iff_eq]
    exact hr.document_ne_path hd ho hnone
  unfold Progress.need
  rw [if_neg hother]
  by_cases hroot : o.aliasName = r.rules.rootAlias
  · rw [if_pos ((hr.root_iff_aliasName ho).2 hroot)]
    exact ⟨h.skip (.inr (.inl hroot)), rfl⟩
  · rw [if_neg (mt (hr.root_iff_aliasName ho).1 hroot)]
    have howner := hr.aliasOwner?_eq ho
    split
    next hlookup =>
      refine ⟨h.push howner ?_ (hr.aliasName_ne_nil ho hroot) hroot, rfl⟩
      intro hmem
      obtain ⟨e, he, heq⟩ := List.mem_map.1 hmem
      have hne := List.lookup_eq_none_iff.1 hlookup e he
      rw [heq] at hne
      simp at hne
    next first hlookup =>
      obtain ⟨front, back, hedges, -⟩ := List.lookup_eq_some_iff.1 hlookup
      have hmem : (o.aliasName, first) ∈ p.edges := by
        rw [hedges]
        exact List.mem_append_right _ List.mem_cons_self
      -- Both import paths are what the alias stands for, so there is no
      -- collision.
      have hpath : (first.importPath == o.importPath) = true := by
        have hfirst := h.bound _ hmem
        rw [howner] at hfirst
        rw [beq_iff_eq]
        exact (Option.some.inj hfirst).symm
      rw [if_pos hpath]
      exact ⟨h.skip (.inr (.inr (List.mem_map_of_mem hmem))), rfl⟩

theorem Collected.needOwner
    {qs : List Text} {p : Progress} (h : Collected r qs p) (place : Coordinates)
    (span : Span) {q : Text} {o? : Option Owner} (hroute : Route r d q o?) :
    Collected r (qs ++ [q]) (p.needOwner r d place span o?) ∧
      (p.needOwner r d place span o?).diagnostics = p.diagnostics := by
  cases hroute with
  | own => exact ⟨h.skip (.inl rfl), rfl⟩
  | root => exact ⟨h.skip (.inr (.inl rfl)), rfl⟩
  | external ho hnone => exact h.need hr hd place span ho hnone

end Visit

/-! ## What one argument adds -/

def interfaceMeaning (r : Registry) (d : Document)
    (a : Argument) : Option Reference :=
  if a.interface.isEmpty then none
  else (interface r d a.interface).toOption.map Target.reference

def enumMeaning (r : Registry) (d : Document) (i : Interface)
    (a : Argument) : Option EnumReference :=
  if a.enum.isEmpty then none
  else (enumeration r d i a.enum).toOption.map EnumTarget.reference

def siteQualifiers (r : Registry) (d : Document) (s : Site) : List Text :=
  (interfaceMeaning r d s.argument).toList.map Reference.qualifier ++
    (enumMeaning r d s.interface s.argument).toList.map fun e => e.qualifier

/-- What is reported on an argument that is visited alone. -/
def reportedOn (r : Registry) (d : Document) (s : Site) : List Diagnostic :=
  (visitSite r d {} s).diagnostics

/-- The codes of findings on references to enumerations. -/
def enumCodes : List Code :=
  [.unresolvedEnumOwner, .ambiguousEnumOwner, .enumNotFound, .enumTypeMismatch]

theorem resolvedInterface_argument
    {r : Registry} {d : Document} {i : Interface} {a : Argument}
    (hunset : a.resolvedInterface = none) :
    (argument r d i a).resolvedInterface = interfaceMeaning r d a := by
  simp only [argument, interfaceMeaning, hunset]
  split
  next => rfl
  next =>
    cases interface r d a.interface with
    | error e => rfl
    | ok t => rfl

theorem resolvedEnum_argument
    {r : Registry} {d : Document} {i : Interface} {a : Argument}
    (hunset : a.resolvedEnum = none) :
    (argument r d i a).resolvedEnum = enumMeaning r d i a := by
  simp only [argument, enumMeaning, hunset]
  split
  next => rfl
  next =>
    cases enumeration r d i a.enum with
    | error e => rfl
    | ok t => rfl

section Visit

variable {docs : List Document} {r : Registry} (hr : Registry.Indexed docs r)
  {d : Document} (hd : d ∈ docs) {a : Argument} {x : Diagnostic}

include hr hd

theorem Collected.visitInterface (h : Collected r qs p) (place : Coordinates)
    (a : Argument) :
    Collected r (qs ++ (interfaceMeaning r d a).toList.map Reference.qualifier)
        (visitInterface r d place p a) ∧
      (visitInterface r d place p a).diagnostics =
        p.diagnostics ++ (visitInterface r d place {} a).diagnostics := by
  unfold Resolution.visitInterface interfaceMeaning
  by_cases hempty : a.interface.isEmpty = true
  · simp only [hempty, if_true, Option.toList_none, List.map_nil,
      List.append_nil]
    exact ⟨h, trivial⟩
  · simp only [hempty, if_false, Bool.false_eq_true]
    cases hlookup : interface r d a.interface with
    | error e =>
      refine ⟨?_, rfl⟩
      rw [Except.toOption, Option.map_none, Option.toList_none, List.map_nil,
        List.append_nil]
      exact h.reject _
    | ok t =>
      have hroute := route_of_interface hlookup
      obtain ⟨hcollected, hsame⟩ := h.needOwner hr hd place a.span hroute
      obtain ⟨-, halone⟩ :=
        (collected_nil r).needOwner hr hd place a.span hroute
      refine ⟨hcollected, ?_⟩
      rw [hsame, halone, List.append_nil]

theorem Collected.visitEnum (h : Collected r qs p) (i : Interface)
    (place : Coordinates) (a : Argument) :
    Collected r (qs ++ (enumMeaning r d i a).toList.map fun e => e.qualifier)
        (visitEnum r d i place p a) ∧
      (visitEnum r d i place p a).diagnostics =
        p.diagnostics ++ (visitEnum r d i place {} a).diagnostics := by
  unfold Resolution.visitEnum enumMeaning
  by_cases hempty : a.enum.isEmpty = true
  · simp only [hempty, if_true, Option.toList_none, List.map_nil,
      List.append_nil]
    exact ⟨h, trivial⟩
  · simp only [hempty, if_false, Bool.false_eq_true]
    cases hlookup : enumeration r d i a.enum with
    | error e =>
      refine ⟨?_, rfl⟩
      rw [Except.toOption, Option.map_none, Option.toList_none, List.map_nil,
        List.append_nil]
      exact h.reject _
    | ok t =>
      have hroute := route_of_enumeration hlookup
      obtain ⟨hcollected, hsame⟩ := h.needOwner hr hd place a.span hroute
      obtain ⟨-, halone⟩ :=
        (collected_nil r).needOwner hr hd place a.span hroute
      dsimp only
      split
      next =>
        refine ⟨hcollected.report _, ?_⟩
        simp only [Progress.report, hsame, halone, List.nil_append]
      next =>
        split
        next =>
          refine ⟨hcollected.reject _, ?_⟩
          simp only [Progress.reject, Progress.report, hsame, halone,
            List.nil_append]
        next =>
          refine ⟨hcollected, ?_⟩
          rw [hsame, halone, List.append_nil]

theorem reportedOn_eq (s : Site) :
    reportedOn r d s =
      (visitInterface r d (s.place (Alias.protocolName d))
      {} s.argument).diagnostics ++
        (visitEnum r d s.interface (s.place (Alias.protocolName d))
        {} s.argument).diagnostics := by
  obtain ⟨hcollected, -⟩ :=
    (collected_nil r).visitInterface hr hd
      (s.place (Alias.protocolName d)) s.argument
  exact (hcollected.visitEnum hr hd s.interface _ s.argument).2

theorem Collected.visitSite (h : Collected r qs p) (s : Site) :
    Collected r (qs ++ siteQualifiers r d s) (visitSite r d p s) ∧
      (visitSite r d p s).diagnostics = p.diagnostics ++ reportedOn r d s := by
  obtain ⟨hmiddle, hfirst⟩ :=
    h.visitInterface hr hd (s.place (Alias.protocolName d)) s.argument
  obtain ⟨hcollected, hsecond⟩ :=
    hmiddle.visitEnum hr hd s.interface
      (s.place (Alias.protocolName d)) s.argument
  rw [List.append_assoc] at hcollected
  refine ⟨hcollected, ?_⟩
  rw [reportedOn_eq hr hd, ← List.append_assoc, ← hfirst]
  exact hsecond

theorem Collected.foldl (h : Collected r qs p) (sites : List Site) :
    Collected r (qs ++ sites.flatMap (siteQualifiers r d))
    (sites.foldl (Resolution.visitSite r d) p) ∧
      (sites.foldl (Resolution.visitSite r d) p).diagnostics =
        p.diagnostics ++ sites.flatMap (reportedOn r d) := by
  induction sites generalizing qs p with
  | nil =>
    rw [List.flatMap_nil, List.append_nil, List.flatMap_nil, List.append_nil]
    exact ⟨h, rfl⟩
  | cons s sites ih =>
    obtain ⟨hstep, hreported⟩ := h.visitSite hr hd s
    obtain ⟨hrest, hrestReported⟩ := ih hstep
    rw [List.flatMap_cons, List.flatMap_cons, ← List.append_assoc,
      ← List.append_assoc, ← hreported]
    exact ⟨hrest, hrestReported⟩

theorem collected_visit :
    Collected r (d.sites.flatMap (siteQualifiers r d)) (visit r d) ∧
      (visit r d).diagnostics = d.sites.flatMap (reportedOn r d) := by
  rw [visit_eq_foldl]
  exact (collected_nil r).foldl hr hd d.sites

/-! ## What is reported -/

theorem diagnostics_visitInterface_of_ok {t : Target}
    (h : interface r d a.interface = .ok t) (place : Coordinates) :
    (Resolution.visitInterface r d place {} a).diagnostics = [] := by
  unfold Resolution.visitInterface
  split
  next => rfl
  next =>
    rw [h]
    exact ((collected_nil r).needOwner hr hd place a.span
      (route_of_interface h)).2

omit hr hd in
theorem exists_code_of_error {e : LookupError} (hne : a.interface ≠ [])
    (h : interface r d a.interface = .error e) (place : Coordinates) :
    ∃ x ∈ (Resolution.visitInterface r d place {} a).diagnostics,
      x.code = .unresolvedInterface ∨ x.code = .ambiguousInterface := by
  unfold Resolution.visitInterface
  rw [if_neg (mt List.isEmpty_iff.1 hne), h]
  exact ⟨_, List.mem_singleton_self _, code_eq_of_interface_eq_error h⟩

theorem located_visitInterface {place : Coordinates}
    (hx : x ∈ (Resolution.visitInterface r d place {} a).diagnostics) :
    x.coordinates = place ∧ x.span = a.span ∧
      (x.code = .unresolvedInterface ∨ x.code = .ambiguousInterface) := by
  cases hlookup : interface r d a.interface with
  | ok t =>
    rw [diagnostics_visitInterface_of_ok hr hd hlookup] at hx
    cases hx
  | error e =>
    unfold Resolution.visitInterface at hx
    split at hx
    next => cases hx
    next =>
      rw [hlookup] at hx
      obtain rfl := List.mem_singleton.1 hx
      exact ⟨rfl, rfl, code_eq_of_interface_eq_error hlookup⟩

theorem located_visitEnum {i : Interface} {place : Coordinates}
    (hx : x ∈ (Resolution.visitEnum r d i place {} a).diagnostics) :
    x.coordinates = place ∧ x.span = a.span ∧ x.code ∈ enumCodes := by
  unfold Resolution.visitEnum at hx
  split at hx
  next => cases hx
  next =>
    split at hx
    next e hlookup =>
      obtain rfl := List.mem_singleton.1 hx
      refine ⟨rfl, rfl, ?_⟩
      rcases code_eq_of_enumeration_eq_error hlookup with hcode | hcode
      · exact hcode ▸ List.mem_cons_self
      · exact hcode ▸ List.mem_cons_of_mem _ List.mem_cons_self
    next t hlookup =>
      have halone :=
        ((collected_nil r).needOwner hr hd place a.span
          (route_of_enumeration hlookup)).2
      dsimp only at hx
      split at hx
      next =>
        rw [Progress.report, halone] at hx
        obtain rfl := List.mem_singleton.1 hx
        exact ⟨rfl, rfl, (by decide : Code.enumNotFound ∈ enumCodes)⟩
      next =>
        split at hx
        next =>
          rw [Progress.reject, Progress.report, halone] at hx
          obtain rfl := List.mem_singleton.1 hx
          exact ⟨rfl, rfl, (by decide : Code.enumTypeMismatch ∈ enumCodes)⟩
        next =>
          rw [halone] at hx
          cases hx

theorem located_reportedOn {s : Site} (hx : x ∈ reportedOn r d s) :
    x.coordinates = s.place (Alias.protocolName d) ∧ x.span = s.argument.span ∧
      (x.code = .unresolvedInterface ∨ x.code = .ambiguousInterface ∨
      x.code ∈ enumCodes) := by
  rw [reportedOn_eq hr hd, List.mem_append] at hx
  rcases hx with hx | hx
  · obtain ⟨hplace, hspan, hcode | hcode⟩ := located_visitInterface hr hd hx
    · exact ⟨hplace, hspan, .inl hcode⟩
    · exact ⟨hplace, hspan, .inr (.inl hcode)⟩
  · obtain ⟨hplace, hspan, hcode⟩ := located_visitEnum hr hd hx
    exact ⟨hplace, hspan, .inr (.inr hcode)⟩

/-- A reference to an interface has a meaning if and only if no error says that
it has none. -/
theorem isSome_interfaceMeaning_iff {s : Site}
    (hne : s.argument.interface ≠ []) :
    (interfaceMeaning r d s.argument).isSome = true ↔
      ∀ x ∈ reportedOn r d s, x.code ≠ .unresolvedInterface ∧
      x.code ≠ .ambiguousInterface := by
  rw [interfaceMeaning, if_neg (mt List.isEmpty_iff.1 hne), reportedOn_eq hr hd]
  cases hlookup : interface r d s.argument.interface with
  | ok t =>
    rw [diagnostics_visitInterface_of_ok hr hd hlookup, List.nil_append]
    refine iff_of_true rfl ?_
    intro x hx
    have hother : ∀ c ∈ enumCodes, c ≠ .unresolvedInterface ∧
        c ≠ .ambiguousInterface := by
      decide
    obtain ⟨-, -, hcode⟩ := located_visitEnum hr hd hx
    exact hother x.code hcode
  | error e =>
    refine iff_of_false Bool.false_ne_true ?_
    intro hnone
    obtain ⟨x, hx, hcode⟩ :=
      exists_code_of_error hne hlookup (s.place (Alias.protocolName d))
    obtain ⟨hunresolved, hambiguous⟩ := hnone x (List.mem_append_left _ hx)
    rcases hcode with hcode | hcode
    · exact hunresolved hcode
    · exact hambiguous hcode

end Visit

/-! ## References to other documents -/

/-- A reference that leads to the declaration `o` of another document is well
founded. -/
structure Grounded (docs : List Document) (r : Registry) (name : Text)
    (t : Target) (o : Owner) : Prop where
  mem_owners : o ∈ r.owners name
  /-- A document of the corpus declares the interface. -/
  declared : ∃ e ∈ docs, e.path = o.document ∧ ∃ i ∈ e.interfaces, i.name = name
  /-- The reference is qualified by the alias of that document. -/
  reference_eq : ∃ m, r.document? o.document = some m ∧
    t.reference =
    { qualifier := m.aliasName, name := shortName name, target := name }
  aliasOwner?_eq : r.aliasOwner? t.reference.qualifier = some o.importPath

theorem grounded_of_interface
    {docs : List Document} {r : Registry} (hr : Registry.Indexed docs r)
    {d : Document} {name : Text} {t : Target} {o : Owner}
    (h : interface r d name = .ok t) (ho : t.owner = some o) :
    Grounded docs r name t o := by
  rcases interface_cases h with ⟨hnone, -⟩ | ⟨-, p, hp, rfl⟩
  · rw [hnone] at ho
    cases ho
  · obtain rfl : p = o := Option.some.inj ho
    obtain ⟨hdeclared, rfl⟩ := Registry.mem_owners_iff.1 hp
    have hbound := hr.aliasOwner?_eq hdeclared
    obtain ⟨e, he, m, hm, hdocument, hmem⟩ := hr.exists_declaring hdeclared
    obtain ⟨i, hi, rfl⟩ := List.mem_map.1 hmem
    exact ⟨hp, ⟨e, he, hdocument.symm, i, hi, rfl⟩,
      ⟨m, hr.document?_eq_some hm, rfl⟩, hbound⟩

/-- References to other documents are well founded, and no two import paths are
needed under one alias. -/
theorem grounded_of_build
    {rules : NamingRules} {docs : List Document} {r : Registry}
    (hbuild : Registry.build rules docs = .ok r) :
    (∀ d name t o, interface r d name = .ok t → t.owner = some o →
      Grounded docs r name t o) ∧
      ∀ d ∈ docs, ∀ e ∈ (d.resolve r).diagnostics, e.code ≠
      .importAliasCollision := by
  obtain ⟨-, hr⟩ := Registry.indexed_of_build hbuild
  refine ⟨fun d name t o => grounded_of_interface hr, ?_⟩
  intro d hd e he hcollision
  have hreported : e ∈ d.sites.flatMap (reportedOn r d) :=
    (collected_visit hr hd).2 ▸ he
  obtain ⟨s, -, hs⟩ := List.mem_flatMap.1 hreported
  obtain ⟨-, -, hcode⟩ := located_reportedOn hr hd hs
  rw [hcollision] at hcode
  revert hcode
  decide

/-- A document that refers to itself, to the root, to two other documents and to
nothing. -/
def linked : Document where
  path := "a.xml"
  importPath := "p/a"
  protocol := some {
    name := "shell"
    interfaces := [{
      name := "sh_window"
      requests := [{
        name := "open"
        args := [
          { name := "parent", kind := .object, interface := "sh_window" },
          { name := "surface", kind := .object, interface := "wl_surface" },
          { name := "tool", kind := .object, interface := "zwp_tool" },
          { name := "edge", kind := .uint, enum := "xdg_popup.edge" },
          { name := "lost", kind := .object, interface := "xx_lost" }] }] }] }

def linkedCorpus : List Document :=
  [linked,
    { path := "b.xml", importPath := "p/b",
      protocol :=
        some { name := "wayland", interfaces := [{ name := "wl_surface" }] } },
    { path := "c.xml", importPath := "p/c",
      protocol :=
        some { name := "tablet", interfaces := [{ name := "zwp_tool" }] } },
    { path := "d.xml", importPath := "p/d",
      protocol := some {
        name := "popup", interfaces :=
          [{ name := "xdg_popup", enums := [{ name := "edge" }] }] } }]

theorem linked_grounded :
    ∃ r t o, Registry.build {} linkedCorpus = .ok r ∧
    interface r linked "zwp_tool" = .ok t ∧
      t.owner = some o ∧ o.document = "c.xml" ∧
      t.reference = ⟨"zwp_tool", "tool", "zwp_tool"⟩ ∧
      Grounded linkedCorpus r "zwp_tool" t o ∧
      ∀ e ∈ (linked.resolve r).diagnostics, e.code ≠ .importAliasCollision := by
  have hbuild : (Registry.build {} linkedCorpus).map (fun r =>
      (interface r linked "zwp_tool").toOption.map fun t =>
      (t.owner.map Owner.document, t.reference)) =
      .ok (some (some (Text.ofString "c.xml"),
      ⟨"zwp_tool", "tool", "zwp_tool"⟩)) := by
    decide +kernel
  obtain ⟨r, hr, hevaluated⟩ := Chain.map_eq_ok_iff.1 hbuild
  obtain ⟨t, ht, htarget⟩ := Option.map_eq_some_iff.1 hevaluated
  obtain ⟨howner, hreference⟩ := Prod.mk.inj htarget
  obtain ⟨o, ho, hdocument⟩ := Option.map_eq_some_iff.1 howner
  have hinterface : interface r linked "zwp_tool" = .ok t :=
    Chain.toOption_eq_some_iff.1 ht
  obtain ⟨hgrounded, hcollision⟩ := grounded_of_build hr
  exact ⟨r, t, o, hr, hinterface, ho, hdocument, hreference,
    hgrounded linked _ t o hinterface ho, hcollision linked List.mem_cons_self⟩

/-! ## Exactness -/

structure Exact (r : Registry) (d : Document) (x : Resolved) : Prop where
  rejected_iff : x.ok = false ↔ ∃ e ∈ x.diagnostics, e.isError = true
  /-- Findings are reported argument by argument. -/
  reported : x.diagnostics = d.sites.flatMap (reportedOn r d)
  located : ∀ s ∈ d.sites, ∀ e ∈ reportedOn r d s,
    e.coordinates = s.place (Alias.protocolName d) ∧ e.span = s.argument.span
  /-- A reference to an interface is given a meaning unless it is reported that
  it has none. -/
  meaning_iff : List.Forall₂ (fun s t => s.argument.interface ≠ [] →
      (t.argument.resolvedInterface.isSome = true ↔
        ∀ e ∈ reportedOn r d s, e.code ≠ .unresolvedInterface ∧
        e.code ≠ .ambiguousInterface))
    d.sites x.document.sites
  ordered : x.imports.imports.Pairwise fun a b =>
    Text.before a.aliasName b.aliasName = true
  /-- The imports are what references are qualified by, apart from the document
  itself and the root. -/
  mem_imports_iff : ∀ q, q ∈ x.imports.imports.map ImportEdge.aliasName ↔
    q ∈ x.document.qualifiers ∧ q ≠ [] ∧ q ≠ r.rules.rootAlias
  importPath_eq : ∀ e ∈ x.imports.imports, r.aliasOwner? e.aliasName =
    some e.importPath

theorem aliasName_imports_perm (d : Document) (edges : List (Text × Owner)) :
    ((imports d edges).map ImportEdge.aliasName).Perm (edges.map Prod.fst) := by
  rw [imports, List.map_map]
  exact (List.mergeSort_perm edges _).map Prod.fst

theorem pairwise_imports
    (d : Document) {edges : List (Text × Owner)}
    (hnodup : (edges.map Prod.fst).Nodup) :
    (imports d edges).Pairwise fun a b => Text.before a.aliasName b.aliasName =
      true := by
  have hdistinct : ((imports d edges).map ImportEdge.aliasName).Nodup :=
    (aliasName_imports_perm d edges).nodup_iff.2 hnodup
  have hsorted : (imports d edges).Pairwise fun a b =>
      Text.le a.aliasName b.aliasName = true := by
    rw [imports, List.pairwise_map]
    exact List.pairwise_mergeSort (fun a b c => Text.le_trans a.1 b.1 c.1)
      (fun a b => Text.le_total a.1 b.1) edges
  refine (hsorted.and (List.pairwise_map.1 hdistinct)).imp ?_
  intro a b hab
  exact Text.before_iff_le_and_ne.2 hab

theorem qualifiers_document
    {r : Registry} {d : Document} (hunresolved : d.Unresolved) :
    (document r d).qualifiers = d.sites.flatMap (siteQualifiers r d) := by
  rw [Document.qualifiers, sites_document, List.flatMap_map]
  apply List.flatMap_congr
  intro s hs
  obtain ⟨hinterface, henum⟩ := hunresolved s hs
  simp only [resolvedSite, resolvedInterface_argument hinterface,
    resolvedEnum_argument henum, siteQualifiers]

/-- Resolution of the documents of a corpus is exact. -/
theorem exact_of_build
    {rules : NamingRules} {docs : List Document} {r : Registry}
    (hbuild : Registry.build rules docs = .ok r)
    {d : Document} (hd : d ∈ docs) (hunresolved : d.Unresolved) :
    Exact r d (d.resolve r) := by
  obtain ⟨-, hr⟩ := Registry.indexed_of_build hbuild
  obtain ⟨hcollected, hreported⟩ := collected_visit hr hd
  constructor
  case rejected_iff =>
    rw [Document.resolve_ok_eq]
    simp
  case reported => exact hreported
  case located =>
    intro s _ e he
    obtain ⟨hplace, hspan, -⟩ := located_reportedOn hr hd he
    exact ⟨hplace, hspan⟩
  case meaning_iff =>
    change List.Forall₂ _ d.sites (document r d).sites
    rw [sites_document, List.forall₂_map_right_iff, List.forall₂_same]
    intro s hs hne
    rw [resolvedSite, resolvedInterface_argument (hunresolved s hs).1]
    exact isSome_interfaceMeaning_iff hr hd hne
  case ordered => exact pairwise_imports d hcollected.nodup
  case mem_imports_iff =>
    intro q
    change q ∈ (imports d (visit r d).edges).map ImportEdge.aliasName ↔
      q ∈ (document r d).qualifiers ∧ _
    rw [(aliasName_imports_perm d (visit r d).edges).mem_iff,
      hcollected.mem_iff, qualifiers_document hunresolved]
  case importPath_eq =>
    intro e he
    obtain ⟨edge, hedge, rfl⟩ := List.mem_map.1 he
    exact hcollected.bound edge (List.mem_mergeSort.1 hedge)

/-- Two documents are imported, one of them for an enumeration only, and one
reference is reported. -/
theorem linked_exact :
    ∃ r, Registry.build {} linkedCorpus = .ok r ∧ linked ∈ linkedCorpus ∧
    linked.Unresolved ∧
      (linked.resolve r).imports.imports.map
      (fun e => (e.aliasName, e.importPath)) =
        [(Text.ofString "xdg_popup", Text.ofString "p/d"),
        ("zwp_tool", "p/c")] ∧
      (linked.resolve r).diagnostics.map Diagnostic.code =
        [.unresolvedInterface] ∧
      Exact r linked (linked.resolve r) := by
  have hbuild : (Registry.build {} linkedCorpus).map (fun r =>
      ((linked.resolve r).imports.imports.map
      (fun e => (e.aliasName, e.importPath)),
        (linked.resolve r).diagnostics.map Diagnostic.code)) =
      .ok ([(Text.ofString "xdg_popup", Text.ofString "p/d"),
        ("zwp_tool", "p/c")],
        [.unresolvedInterface]) := by
    cbv
  have hmem : linked ∈ linkedCorpus := List.mem_cons_self
  have hunresolved : linked.Unresolved := by
    decide +kernel
  obtain ⟨r, hr, hresolved⟩ := Chain.map_eq_ok_iff.1 hbuild
  obtain ⟨himports, hcodes⟩ := Prod.mk.inj hresolved
  exact ⟨r, hr, hmem, hunresolved, himports, hcodes,
    exact_of_build hr hmem hunresolved⟩

end Resolution

end ProtocolCorpus
