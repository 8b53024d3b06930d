import ProtocolCorpus.Proofs.DocumentOrder
import ProtocolCorpus.Proofs.Narrowing

/-!
# Where references lead

A reference stays in its own document, goes to the root protocol, or leads to a
declaration in another document. In the last case the declaration is one that
the registry lists for the name, and the qualifier of the reference is the alias
under which its document is registered.
-/

namespace ProtocolCorpus

/-! ## Declarations and their documents -/

namespace Document

theorem interface?_eq_find? (d : Document) (name : Text) :
    d.interface? name = d.interfaces.find? fun i => i.name == name := by
  rw [interface?, interfaces]
  cases d.protocol with
  | none => rfl
  | some p => rfl

theorem name_of_interface?
    {d : Document} {name : Text} {i : Interface}
    (h : d.interface? name = some i) :
    i.name = name := by
  rw [interface?_eq_find?] at h
  simpa using List.find?_some h

end Document

namespace Registry

variable {docs : List Document} {r : Registry} {o : Owner}

theorem Indexed.unnamed_eq_of_mem_zip (h : Indexed docs r) {d : Document}
    {m : Registration} (hmem : (d, m) ∈ docs.zip r.documents) :
    m.unnamed = register d [] false := by
  obtain ⟨k, hk, hget⟩ := List.mem_iff_getElem.1 hmem
  rw [List.getElem_zip] at hget
  obtain ⟨rfl, rfl⟩ := Prod.mk.inj hget
  have hregistered := congrArg (fun l => l[k]?) h.registered
  rw [List.length_zip] at hk
  have hdocs : k < docs.length := by omega
  have hdocuments : k < r.documents.length := by omega
  simpa [hdocs, hdocuments] using hregistered

/-- A declaration stands in a document of the corpus and carries what is
registered for it. -/
theorem Indexed.exists_declaring (h : Indexed docs r)
    (ho : o ∈ r.declarations) :
    ∃ d ∈ docs, ∃ m ∈ r.documents, m.document = d.path ∧
      o ∈ declarationsOf d m := by
  rw [h.declared, List.mem_flatMap] at ho
  obtain ⟨⟨d, m⟩, hzip, hdeclared⟩ := ho
  obtain ⟨hd, hm⟩ := List.of_mem_zip hzip
  have hdocument : m.document = d.path :=
    congrArg Registration.document (h.unnamed_eq_of_mem_zip hzip)
  exact ⟨d, hd, m, hm, hdocument, hdeclared⟩

theorem Indexed.aliasOwner?_eq (h : Indexed docs r) (ho : o ∈ r.declarations) :
    r.aliasOwner? o.aliasName = some o.importPath := by
  obtain ⟨d, -, m, hm, -, hdeclared⟩ := h.exists_declaring ho
  obtain ⟨i, -, rfl⟩ := List.mem_map.1 hdeclared
  exact h.bound m hm

/-- A document declares no interface that it does not find in itself. -/
theorem Indexed.document_ne_path (h : Indexed docs r) {d : Document}
    (hd : d ∈ docs)
    (ho : o ∈ r.declarations) (hnone : d.interface? o.declaration.name = none) :
    o.document ≠ d.path := by
  intro hpath
  obtain ⟨e, he, m, -, hdocument, hdeclared⟩ := h.exists_declaring ho
  obtain ⟨i, hi, rfl⟩ := List.mem_map.1 hdeclared
  obtain rfl : e = d :=
    List.inj_on_of_nodup_map h.distinct he hd (hdocument.symm.trans hpath)
  rw [Document.interface?_eq_find?, List.find?_eq_none] at hnone
  exact hnone i hi (beq_self_eq_true i.name)

/-- The alias of a declaration is the root alias exactly if its document is the
root. -/
theorem Indexed.root_iff_aliasName (h : Indexed docs r)
    (ho : o ∈ r.declarations) :
    ((r.document? o.document).map Registration.root).getD false = true ↔
      o.aliasName = r.rules.rootAlias := by
  obtain ⟨d, -, m, hm, -, hdeclared⟩ := h.exists_declaring ho
  obtain ⟨i, -, rfl⟩ := List.mem_map.1 hdeclared
  rw [h.document?_eq_some hm, Option.map_some, Option.getD_some]
  constructor
  · intro hroot
    exact h.rootAlias m hm hroot
  · intro halias
    by_contra hroot
    exact (h.otherAlias m hm (Bool.eq_false_of_not_eq_true hroot)).1 halias

theorem Indexed.aliasName_ne_nil (h : Indexed docs r) (ho : o ∈ r.declarations)
    (hroot : o.aliasName ≠ r.rules.rootAlias) :
    o.aliasName ≠ [] := by
  obtain ⟨d, -, m, hm, -, hdeclared⟩ := h.exists_declaring ho
  obtain ⟨i, -, rfl⟩ := List.mem_map.1 hdeclared
  cases hflag : m.root with
  | true => exact absurd (h.rootAlias m hm hflag) hroot
  | false => exact (h.otherAlias m hm hflag).2.tidy.nonempty

end Registry

/-! ## Looking up -/

namespace Resolution

variable {r : Registry} {d : Document} {name : Text} {e : LookupError}

theorem mem_owners_of_owner_eq_ok {unresolved ambiguous : Code} {o : Owner}
    (h : owner r d name unresolved ambiguous = .ok o) :
    o ∈ r.owners name := by
  unfold owner at h
  dsimp only at h
  split at h
  next => cases h
  next =>
    split at h
    next p hnarrow =>
      cases h
      apply (narrow_sublist _ _ _).subset
      rw [hnarrow]
      exact List.mem_singleton_self _
    next => cases h

theorem code_eq_of_owner_eq_error {unresolved ambiguous : Code}
    (h : owner r d name unresolved ambiguous = .error e) :
    e.code = unresolved ∨ e.code = ambiguous := by
  unfold owner at h
  dsimp only at h
  split at h
  next =>
    cases h
    exact .inl rfl
  next =>
    split at h
    next => cases h
    next =>
      cases h
      exact .inr rfl

/-- Where a reference of a document leads, by its qualifier and the declaration
found. -/
inductive Route (r : Registry) (d : Document) : (qualifier : Text) →
    Option Owner → Prop
  | own : Route r d [] none
  | root : Route r d r.rules.rootAlias none
  | external {o : Owner} (ho : o ∈ r.declarations)
      (hnone : d.interface? o.declaration.name = none) :
      Route r d o.aliasName (some o)

theorem interface_cases {t : Target} (h : interface r d name = .ok t) :
    (t.owner = none ∧
    (t.reference.qualifier = [] ∨ t.reference.qualifier = r.rules.rootAlias)) ∨
      d.interface? name = none ∧ ∃ o ∈ r.owners name,
        t = { reference := ⟨o.aliasName, o.name, name⟩, owner := some o } := by
  unfold interface at h
  split at h
  next =>
    cases h
    exact .inl ⟨rfl, .inl rfl⟩
  next hnone =>
    split at h
    next =>
      cases h
      exact .inl ⟨rfl, .inr rfl⟩
    next =>
      obtain ⟨o, ho, ht⟩ := Chain.bind_eq_ok_iff.1 h
      exact .inr
        ⟨hnone, o, mem_owners_of_owner_eq_ok ho,
        (Chain.pure_eq_ok_iff.1 ht).symm⟩

theorem route_of_interface {t : Target} (h : interface r d name = .ok t) :
    Route r d t.reference.qualifier t.owner := by
  rcases interface_cases h
    with ⟨howner, hqualifier | hqualifier⟩ | ⟨hnone, o, ho, rfl⟩
  · rw [howner, hqualifier]
    exact .own
  · rw [howner, hqualifier]
    exact .root
  · obtain ⟨hdeclared, rfl⟩ := Registry.mem_owners_iff.1 ho
    exact .external hdeclared hnone

theorem toReference_withEnum (reference : Reference) (i : Option Interface)
    (enumName : Text) :
    (withEnum reference i enumName).toReference = reference := by
  unfold withEnum
  split
  next => rfl
  next => rfl

theorem route_of_enumeration {enclosing : Interface} {written : Text}
    {t : EnumTarget} (h : enumeration r d enclosing written = .ok t) :
    Route r d t.reference.qualifier t.owner := by
  have hlocal : ∀ i enumName,
      Route r d (localEnum i enumName).reference.qualifier none := by
    intro i enumName
    rw [localEnum, toReference_withEnum]
    exact .own
  unfold enumeration at h
  split at h
  next =>
    cases h
    exact hlocal _ _
  next name enumName _ =>
    split at h
    next =>
      cases h
      exact hlocal _ _
    next hnone =>
      split at h
      next =>
        cases h
        rw [toReference_withEnum]
        exact .root
      next =>
        obtain ⟨o, ho, ht⟩ := Chain.bind_eq_ok_iff.1 h
        obtain ⟨hdeclared, rfl⟩ :=
          Registry.mem_owners_iff.1 (mem_owners_of_owner_eq_ok ho)
        obtain rfl := Chain.pure_eq_ok_iff.1 ht
        rw [toReference_withEnum]
        exact .external hdeclared hnone

theorem code_eq_of_interface_eq_error (h : interface r d name = .error e) :
    e.code = .unresolvedInterface ∨ e.code = .ambiguousInterface := by
  unfold interface at h
  split at h
  next => cases h
  next =>
    split at h
    next => cases h
    next =>
      rcases Chain.bind_eq_error_iff.1 h with howner | ⟨o, -, hreturn⟩
      · exact code_eq_of_owner_eq_error howner
      · cases hreturn

theorem code_eq_of_enumeration_eq_error {enclosing : Interface} {written : Text}
    (h : enumeration r d enclosing written = .error e) :
    e.code = .unresolvedEnumOwner ∨ e.code = .ambiguousEnumOwner := by
  unfold enumeration at h
  split at h
  next => cases h
  next =>
    split at h
    next => cases h
    next =>
      split at h
      next => cases h
      next =>
        rcases Chain.bind_eq_error_iff.1 h with howner | ⟨o, -, hreturn⟩
        · exact code_eq_of_owner_eq_error howner
        · cases hreturn

end Resolution

end ProtocolCorpus
