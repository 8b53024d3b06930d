import ProtocolCorpus.Proofs.Chain
import ProtocolCorpus.Proofs.Identifier
import ProtocolCorpus.Registry.Basic

/-!
# Aliases of a registry

A registry gives its documents aliases one after the other. An alias may be used
again for the same import path only, the alias of the root is kept back until
the root document comes, and every other alias is an identifier. The invariant
`Indexed` says what holds after any number of documents, and is kept by every
way in which a document can be added.
-/

namespace ProtocolCorpus

/-! ## Assigning one alias -/

namespace Alias

theorem usable_iff
    {rules : NamingRules} {bound : AliasTable} {importPath name : Text} :
    usable rules bound importPath name = true ↔
      name ≠ [] ∧ name ≠ rules.rootAlias ∧
        ∀ owner, bound[name]? = some owner → owner = importPath := by
  unfold usable
  split
  next h =>
    rw [Bool.or_eq_true, List.isEmpty_iff, beq_iff_eq] at h
    constructor
    · intro hfalse
      cases hfalse
    · rintro ⟨hne, hroot, -⟩
      exact absurd h (not_or.2 ⟨hne, hroot⟩)
  next h =>
    rw [Bool.or_eq_true, List.isEmpty_iff, beq_iff_eq, not_or] at h
    cases bound[name]? with
    | none => simp [h]
    | some owner => simp [h]

theorem numbered?_spec
    {ok : Text → Bool} {base name : Text} {n count : Nat}
    (h : numbered? ok base n count = some name) :
    ok name = true ∧ ∃ k, name = base ++ "_" ++ Text.ofNat k := by
  induction count generalizing n with
  | zero => cases h
  | succ count ih =>
    rw [numbered?] at h
    split at h
    next hok =>
      cases h
      exact ⟨hok, n, rfl⟩
    next => exact ih h

theorem spelled_fallback (d : Document) :
    Naming.Spelled (fallback d) := by
  unfold fallback
  dsimp only
  split
  next =>
    refine ⟨["proto"], List.cons_ne_nil _ _, ?_, by decide +kernel⟩
    intro w hw
    rw [List.mem_singleton.1 hw]
    exact ⟨by decide +kernel, by decide +kernel⟩
  next h =>
    apply Naming.spelled_identifier
    simpa using h

/-- An assigned alias can be used, and is made of words. -/
theorem assign?_spec
    {rules : NamingRules} {bound : AliasTable} {d : Document} {name : Text}
    (h : assign? rules bound d = some name) :
    usable rules bound d.importPath name = true ∧ Naming.Spelled name := by
  unfold assign? at h
  dsimp only at h
  split at h
  next candidate hfound =>
    cases h
    have husable : usable rules bound d.importPath name = true :=
      List.find?_some hfound
    refine ⟨husable, ?_⟩
    obtain ⟨raw, -, rfl⟩ := List.mem_map.1 (List.mem_of_find?_eq_some hfound)
    exact Naming.spelled_identifier (usable_iff.1 husable).1
  next =>
    obtain ⟨husable, k, rfl⟩ := numbered?_spec h
    exact ⟨husable, (spelled_fallback d).concat (Naming.isWord_ofNat k)⟩

end Alias

/-! ## Adding one document -/

/-- The registration without what depends on other documents. -/
def Registration.unnamed (m : Registration) : Registration :=
  { m with aliasName := [], root := false }

namespace Registry

variable {r : Registry} {d : Document} {docs : List Document}

def enter (r : Registry) (d : Document) (name : Text)
    (root : Bool) : Registry :=
  { r with
    documents := r.documents ++ [register d name root]
    declarations := r.declarations ++ declarationsOf d (register d name root)
    aliases := r.aliases.insert name d.importPath }

/-- A document is added as the root under the root alias, or under an alias
assigned to it. -/
theorem add_eq_ok_iff {r' : Registry} :
    r.add d = .ok r' ↔
      r.document? d.path = none ∧
        ((r.isRoot d = true ∧ r' = r.enter d r.rules.rootAlias true) ∨
          ∃ name, r.isRoot d = false ∧ Alias.assign? r.rules r.aliases d =
          some name ∧
            r' = r.enter d name false) := by
  unfold add
  cases hpath : r.document? d.path with
  | some m => simp
  | none =>
    cases hroot : r.isRoot d with
    | true => simp [enter, eq_comm]
    | false =>
      cases hname : Alias.assign? r.rules r.aliases d with
      | none => simp
      | some name => simp [enter, eq_comm]

/-! ## The invariant -/

/-- The first document of the root protocol, if there is a root protocol. -/
def rootDocument? (r : Registry) : Option Registration :=
  if r.rules.rootProtocol.isEmpty then none
  else r.documents.find? fun m => m.protocol == r.rules.rootProtocol

/-- What holds of a registry after the documents `docs`. -/
structure Indexed (docs : List Document) (r : Registry) : Prop where
  registered : r.documents.map Registration.unnamed = docs.map fun d =>
    register d [] false
  declared : r.declarations = (docs.zip r.documents).flatMap fun x =>
    declarationsOf x.1 x.2
  distinct : (docs.map Document.path).Nodup
  /-- An alias stands for the import path of every document that has it. -/
  bound : ∀ m ∈ r.documents, r.aliasOwner? m.aliasName = some m.importPath
  /-- The root alias is in use as soon as there is a document of the root
  protocol. -/
  rootBound : r.aliases.contains r.rules.rootAlias = r.rootDocument?.isSome
  roots : r.documents.filter Registration.root = r.rootDocument?.toList
  rootAlias : ∀ m ∈ r.documents, m.root = true → m.aliasName = r.rules.rootAlias
  otherAlias : ∀ m ∈ r.documents, m.root = false →
    m.aliasName ≠ r.rules.rootAlias ∧ Naming.Spelled m.aliasName

theorem indexed_nil (rules : NamingRules) :
    Indexed [] { rules } := by
  constructor
  case rootBound => simp [rootDocument?]
  case roots => simp [rootDocument?]
  all_goals simp

theorem document?_eq_none_iff {path : Text} :
    r.document? path = none ↔ ∀ m ∈ r.documents, m.document ≠ path := by
  rw [document?, List.find?_eq_none]
  simp only [beq_iff_eq, ne_eq]

theorem Indexed.documents_map_path (h : Indexed docs r) :
    r.documents.map Registration.document = docs.map Document.path := by
  have hmap := congrArg (List.map Registration.document) h.registered
  simpa only [List.map_map, Function.comp_def, Registration.unnamed, register]
    using hmap

theorem Indexed.length_eq (h : Indexed docs r) :
    docs.length = r.documents.length := by
  simpa using (congrArg List.length h.registered).symm

/-- A later document is the first of the root protocol only if there was none
before. -/
theorem rootDocument?_enter (r : Registry) (d : Document) (name : Text)
    (root : Bool) :
    (r.enter d name root).rootDocument? =
      r.rootDocument?.or
        (if !r.rules.rootProtocol.isEmpty && Alias.protocolName d ==
        r.rules.rootProtocol then
          some (register d name root) else none) := by
  cases hempty : r.rules.rootProtocol.isEmpty with
  | true => simp [rootDocument?, enter, hempty]
  | false =>
    simp [rootDocument?, enter, hempty, List.find?_append, List.find?_singleton,
      register]

/-- What one document adds to the invariant, whatever its alias is. -/
theorem Indexed.enter (h : Indexed docs r) {name : Text} {root : Bool}
    (hnew : r.document? d.path = none)
    (howner : ∀ path, r.aliasOwner? name = some path → path = d.importPath)
    (hbound : (r.enter d name root).aliases.contains r.rules.rootAlias =
      (r.enter d name root).rootDocument?.isSome)
    (hroots : (r.enter d name root).rootDocument?.toList =
      r.rootDocument?.toList ++ if root then [register d name root] else [])
    (hroot : root = true → name = r.rules.rootAlias)
    (hother : root = false → name ≠ r.rules.rootAlias ∧ Naming.Spelled name) :
    Indexed (docs ++ [d]) (r.enter d name root) := by
  constructor
  case registered =>
    simp only [Registry.enter, List.map_append, h.registered]
    rfl
  case declared =>
    simp only [Registry.enter, List.zip_append h.length_eq, List.flatMap_append,
      ← h.declared]
    simp
  case distinct =>
    rw [List.map_append, List.nodup_append]
    refine ⟨h.distinct, List.pairwise_singleton _ _, ?_⟩
    intro path hpath other hsingle heq
    rw [← h.documents_map_path, List.mem_map] at hpath
    obtain ⟨m, hm, hdocument⟩ := hpath
    have hsame : other = d.path := by simpa using hsingle
    exact document?_eq_none_iff.1 hnew m hm (hdocument.trans (heq.trans hsame))
  case bound =>
    intro m hm
    rw [aliasOwner?, Registry.enter, Std.TreeMap.getElem?_insert]
    rcases List.mem_append.1 hm with hm | hm
    · have hold := h.bound m hm
      split
      next heq =>
        rw [Std.LawfulEqCmp.compare_eq_iff_eq] at heq
        rw [← heq] at hold
        rw [howner _ hold]
      next => exact hold
    · rw [List.mem_singleton.1 hm]
      simp [register]
  case rootBound => exact hbound
  case roots =>
    rw [hroots, ← h.roots]
    cases root with
    | true => simp [Registry.enter, register]
    | false => simp [Registry.enter, register]
  case rootAlias =>
    intro m hm hflag
    rcases List.mem_append.1 hm with hm | hm
    · exact h.rootAlias m hm hflag
    · rw [List.mem_singleton.1 hm] at hflag ⊢
      exact hroot hflag
  case otherAlias =>
    intro m hm hflag
    rcases List.mem_append.1 hm with hm | hm
    · exact h.otherAlias m hm hflag
    · rw [List.mem_singleton.1 hm] at hflag ⊢
      exact hother hflag

theorem Indexed.add {r' : Registry} (h : Indexed docs r)
    (hadd : r.add d = .ok r') :
    Indexed (docs ++ [d]) r' := by
  obtain ⟨hnew, ⟨hroot, rfl⟩ | ⟨name, hroot, hassign, rfl⟩⟩ :=
    add_eq_ok_iff.1 hadd
  · have hroot : (!r.rules.rootProtocol.isEmpty &&
        Alias.protocolName d == r.rules.rootProtocol) = true ∧
        r.aliases.contains r.rules.rootAlias = false := by
      simpa only [isRoot, Bool.and_eq_true, Bool.not_eq_true'] using hroot
    have hnone : r.rootDocument? = none := by
      have hbound := h.rootBound
      rw [hroot.2] at hbound
      simpa using hbound.symm
    have hfirst : (r.enter d r.rules.rootAlias true).rootDocument? =
        some (register d r.rules.rootAlias true) := by
      rw [rootDocument?_enter, hnone, Option.none_or, if_pos hroot.1]
    apply h.enter hnew
    · intro path hpath
      rw [aliasOwner?,
        Std.TreeMap.getElem?_eq_none_of_contains_eq_false hroot.2] at hpath
      cases hpath
    · rw [hfirst, Registry.enter, Std.TreeMap.contains_insert_self]
      rfl
    · rw [hfirst, hnone]
      rfl
    · exact fun _ => rfl
    · exact fun hflag => Bool.noConfusion hflag
  · obtain ⟨husable, hspelled⟩ := Alias.assign?_spec hassign
    obtain ⟨-, hne, howner⟩ := Alias.usable_iff.1 husable
    have hsame : (r.enter d name false).rootDocument? = r.rootDocument? := by
      rw [rootDocument?_enter]
      cases hfirst : r.rootDocument? with
      | some m => rfl
      | none =>
        rw [Option.none_or]
        apply if_neg
        have hbound := h.rootBound
        rw [hfirst] at hbound
        simpa [isRoot, hbound] using hroot
    apply h.enter hnew howner
    · rw [hsame, ← h.rootBound, Registry.enter, Std.TreeMap.contains_insert]
      simp [hne]
    · rw [hsame]
      simp
    · exact fun hflag => Bool.noConfusion hflag
    · exact fun _ => ⟨hne, hspelled⟩

theorem indexed_of_build {rules : NamingRules} (h : build rules docs = .ok r) :
    r.rules = rules ∧ Indexed docs r := by
  have hstart : ({ rules } : Registry).rules = rules ∧ Indexed [] { rules } :=
    ⟨rfl, indexed_nil rules⟩
  have hrun :=
    Chain.foldlM_inv (P := fun done r => r.rules = rules ∧ Indexed done r)
      ?_ hstart h
  · exact hrun
  · rintro done r d r' ⟨hrules, hindexed⟩ hadd
    refine ⟨?_, hindexed.add hadd⟩
    obtain ⟨-, ⟨-, rfl⟩ | ⟨name, -, -, rfl⟩⟩ := add_eq_ok_iff.1 hadd
    · exact hrules
    · exact hrules

theorem Indexed.root_iff_rootDocument? (h : Indexed docs r) {m : Registration}
    (hm : m ∈ r.documents) :
    m.root = true ↔ r.rootDocument? = some m := by
  rw [← Option.mem_toList, ← h.roots, List.mem_filter]
  simp [hm]

theorem mem_documents_root_iff (h : Indexed docs r) {m : Registration}
    (hm : m ∈ r.documents) :
    m.root = true ↔
      r.rules.rootProtocol ≠ [] ∧
        r.documents.find? (fun n => n.protocol == r.rules.rootProtocol) =
        some m := by
  rw [h.root_iff_rootDocument? hm, rootDocument?]
  cases hempty : r.rules.rootProtocol.isEmpty with
  | true => simp [List.isEmpty_iff.1 hempty]
  | false => simp [List.isEmpty_eq_false_iff.1 hempty]

structure NamedSoundly (docs : List Document) (r : Registry) : Prop where
  /-- Every document is registered in its place, with its own import path. -/
  registered : r.documents.map Registration.unnamed = docs.map fun d =>
    register d [] false
  importPath_eq : ∀ m ∈ r.documents, ∀ n ∈ r.documents,
    m.aliasName = n.aliasName → m.importPath = n.importPath
  aliasOwner?_eq : ∀ m ∈ r.documents, r.aliasOwner? m.aliasName =
    some m.importPath
  /-- There is one root at most. -/
  length_roots_le : (r.documents.filter Registration.root).length ≤ 1
  /-- The root is the first document of the root protocol. -/
  root_iff : ∀ m ∈ r.documents, m.root = true ↔
    r.rules.rootProtocol ≠ [] ∧
      r.documents.find? (fun n => n.protocol == r.rules.rootProtocol) = some m
  root_aliasName : ∀ m ∈ r.documents, m.root = true →
    m.aliasName = r.rules.rootAlias
  other_aliasName : ∀ m ∈ r.documents, m.root = false →
    m.aliasName ≠ r.rules.rootAlias ∧ Naming.Tidy m.aliasName

/-- However a registry is built, its aliases are sound. -/
theorem namedSoundly_of_build
    {rules : NamingRules} {docs : List Document} {r : Registry}
    (h : build rules docs = .ok r) :
    r.rules = rules ∧ NamedSoundly docs r := by
  obtain ⟨hrules, hindexed⟩ := indexed_of_build h
  refine ⟨hrules, ?_⟩
  constructor
  case registered => exact hindexed.registered
  case importPath_eq =>
    intro m hm n hn heq
    have hboth := hindexed.bound m hm
    rw [heq, hindexed.bound n hn] at hboth
    exact (Option.some.inj hboth).symm
  case aliasOwner?_eq => exact hindexed.bound
  case length_roots_le =>
    rw [hindexed.roots]
    cases r.rootDocument? with
    | none => exact Nat.zero_le 1
    | some m => exact Nat.le_refl 1
  case root_iff => exact fun m hm => mem_documents_root_iff hindexed hm
  case root_aliasName => exact hindexed.rootAlias
  case other_aliasName =>
    intro m hm hroot
    obtain ⟨hne, hspelled⟩ := hindexed.otherAlias m hm hroot
    exact ⟨hne, hspelled.tidy⟩

/-- A corpus with two documents of the root protocol, and two import paths that
want the same alias. -/
def sample : List Document :=
  let root : Protocol :=
    { name := "wayland", interfaces := [{ name := "wl_display" }] }
  let tablet : Protocol := { name := "tablet" }
  [{ path := "a.xml", importPath := "p/a", protocol := some root },
    { path := "b.xml", importPath := "p/b", protocol := some root },
    { path := "c.xml", importPath := "p/c", protocol := some tablet },
    { path := "d.xml", importPath := "p/tablet", protocol := some tablet },
    { path := "e.xml", importPath := "p/c", protocol := some tablet }]

/-- The second document of the root protocol gets an alias of its own, the
second import path of `tablet` a number, and the last document the alias of
its import path. -/
theorem sample_namedSoundly :
    ∃ r, build {} sample = .ok r ∧
      r.documents.map (fun m => (m.aliasName, m.root)) =
        [(Text.ofString "wl", true), ("wl_display", false), ("tablet", false),
        ("tablet_2", false), ("tablet", false)] ∧
      NamedSoundly sample r := by
  have hbuild : (build {} sample).map (fun r => r.documents.map fun m =>
      (m.aliasName, m.root)) =
      .ok [(Text.ofString "wl", true), ("wl_display", false), ("tablet", false),
      ("tablet_2", false),
        ("tablet", false)] := by
    decide +kernel
  obtain ⟨r, hr, hnames⟩ := Chain.map_eq_ok_iff.1 hbuild
  exact ⟨r, hr, hnames, (namedSoundly_of_build hr).2⟩

end Registry

end ProtocolCorpus
