import Mathlib.Data.List.Find
import Mathlib.Data.List.Nodup
import Mathlib.Data.List.Zip
import ProtocolCorpus.Proofs.Order
import ProtocolCorpus.Proofs.Registry
import ProtocolCorpus.Resolution.Lookup

/-!
# The order of documents does not decide what references mean

Aliases depend on the order in which documents are registered. Nothing else
does: the declarations of an interface are sorted by a key that tells them
apart, and no question of the cascade looks at an alias. Everything is said here
of answers from which the aliases have been taken out.
-/

namespace ProtocolCorpus

/-! ## Answers without aliases -/

def Owner.unnamed (o : Owner) : Owner :=
  { o with aliasName := [] }

def LookupError.unnamed (e : LookupError) : LookupError :=
  { e with candidates := e.candidates.map Owner.unnamed }

/-- The meaning of a reference without the alias of its owner. A reference that
needs no owner stays as it is. -/
def Target.unnamed (t : Target) : Target :=
  match t.owner with
  | none => t
  | some o =>
    { reference := { t.reference with
        qualifier := [] }, owner := some o.unnamed }

def EnumTarget.unnamed (t : EnumTarget) : EnumTarget :=
  match t.owner with
  | none => t
  | some o =>
    { reference := { t.reference with
        qualifier := [] }, owner := some o.unnamed }

namespace Resolution

variable {q : Query} {f : Owner → Owner}

/-- An answer without aliases, whether it is a success or an error. -/
def withoutAliases {α : Type} (unnamed : α → α) : Except LookupError α →
    Except LookupError α
  | .ok a => .ok (unnamed a)
  | .error e => .error e.unnamed

/-! ## Narrowing looks at no alias -/

/-- The questions of a query do not tell a declaration from what `f` makes of
it. -/
def Unasked (q : Query) (f : Owner → Owner) : Prop :=
  ∀ (step : NarrowingStep) (o : Owner), step.keeps q (f o) = step.keeps q o

theorem narrowBy_map (hf : Unasked q f) (owners : List Owner)
    (step : NarrowingStep) :
    narrowBy q (owners.map f) step = (narrowBy q owners step).map f := by
  have hkept : (owners.map f).filter (fun o => step.keeps q o) =
      (owners.filter fun o => step.keeps q o).map f := by
    rw [List.filter_map]
    congr 2
    funext o
    exact hf step o
  simp only [narrowBy, hkept, List.isEmpty_map]
  split
  · rfl
  · rfl

theorem narrow_map (hf : Unasked q f) (owners : List Owner)
    (steps : List NarrowingStep) :
    narrow q (owners.map f) steps = (narrow q owners steps).map f := by
  induction steps generalizing owners with
  | nil => rfl
  | cons step steps ih =>
    rw [narrow, narrow, List.length_map]
    split
    · rfl
    · rw [narrowBy_map hf, ih]

/-- The one declaration among `owners` that a query can mean. -/
def choose (q : Query) (unresolved ambiguous : Code)
    (owners : List Owner) : Except LookupError Owner :=
  if owners.isEmpty then .error { code := unresolved, name := q.name }
  else
    match narrow q owners NarrowingStep.cascade with
    | [o] => .ok o
    | survivors =>
      .error { code := ambiguous, name := q.name, candidates := survivors }

theorem owner_eq_choose (r : Registry) (d : Document) (name : Text)
    (unresolved ambiguous : Code) :
    owner r d name unresolved ambiguous =
      choose ⟨name, d.importNames⟩ unresolved ambiguous (r.owners name) :=
  rfl

/-- An answer with every declaration in it changed, whether it is a success or
an error. -/
def mapAnswer {α : Type} (f : Owner → Owner)
    (g : α → α) : Except LookupError α → Except LookupError α
  | .ok a => .ok (g a)
  | .error e => .error { e with candidates := e.candidates.map f }

theorem choose_map (hf : Unasked q f) (unresolved ambiguous : Code)
    (owners : List Owner) :
    choose q unresolved ambiguous (owners.map f) =
      mapAnswer f f (choose q unresolved ambiguous owners) := by
  rw [choose, choose, List.isEmpty_map, narrow_map hf]
  split
  · rfl
  · rcases narrow q owners NarrowingStep.cascade with _ | ⟨o, _ | ⟨p, rest⟩⟩
    · rfl
    · rfl
    · rfl

theorem choose_map_unnamed (q : Query) (unresolved ambiguous : Code)
    (owners : List Owner) :
    choose q unresolved ambiguous (owners.map Owner.unnamed) =
      withoutAliases Owner.unnamed (choose q unresolved ambiguous owners) := by
  have hunasked : Unasked q Owner.unnamed := by
    intro step o
    cases step with
    | _ => rfl
  rw [choose_map hunasked]
  cases choose q unresolved ambiguous owners with
  | ok o => rfl
  | error e => rfl

end Resolution

/-! ## What a registry lists, without aliases -/

namespace Registry

variable {docs : List Document} {r : Registry}

theorem Indexed.declarations_map_unnamed (h : Indexed docs r) :
    r.declarations.map Owner.unnamed =
      docs.flatMap fun d => declarationsOf d (register d [] false) := by
  have hunnamed : ∀ x : Document × Registration,
      (declarationsOf x.1 x.2).map Owner.unnamed =
      declarationsOf x.1 x.2.unnamed := by
    intro x
    exact List.map_map
  calc
    r.declarations.map Owner.unnamed
        = (docs.zip r.documents).flatMap fun x =>
            declarationsOf x.1 x.2.unnamed := by
          simp only [h.declared, List.map_flatMap, hunnamed]
    _ = (docs.zip (r.documents.map Registration.unnamed)).flatMap fun x =>
      declarationsOf x.1 x.2 := by
          rw [List.zip_map_right, List.flatMap_map]
          rfl
    _ = docs.flatMap fun d => declarationsOf d (register d [] false) := by
          rw [h.registered, ← List.map_prod_left_eq_zip, List.flatMap_map]

theorem owners_map_unnamed_perm (r : Registry) (name : Text) :
    ((r.owners name).map Owner.unnamed).Perm
      ((r.declarations.map Owner.unnamed).filter fun o => o.declaration.name ==
      name) := by
  rw [List.filter_map]
  exact (owners_perm r name).map Owner.unnamed

theorem owners_map_unnamed_pairwise (r : Registry) (name : Text) :
    ((r.owners name).map Owner.unnamed).Pairwise fun a b => Owner.ordered a b =
    true :=
  List.pairwise_map.2 (owners_pairwise r name)

/-- Declarations of one interface in the same document are the same. -/
theorem eq_of_document_eq (hpaths : (docs.map Document.path).Nodup)
    (hnames : ∀ d ∈ docs, (d.interfaces.map Interface.name).Nodup) {a b : Owner}
    (ha : a ∈ docs.flatMap fun d => declarationsOf d (register d [] false))
    (hb : b ∈ docs.flatMap fun d => declarationsOf d (register d [] false))
    (hdocument : a.document = b.document)
    (hname : a.declaration.name = b.declaration.name) :
    a = b := by
  obtain ⟨d, hd, hda⟩ := List.mem_flatMap.1 ha
  obtain ⟨e, he, heb⟩ := List.mem_flatMap.1 hb
  obtain ⟨i, hi, rfl⟩ := List.mem_map.1 hda
  obtain ⟨j, hj, rfl⟩ := List.mem_map.1 heb
  obtain rfl : d = e := List.inj_on_of_nodup_map hpaths hd he hdocument
  obtain rfl : i = j := List.inj_on_of_nodup_map (hnames d hd) hi hj hname
  rfl

/-- Whatever the order of the documents, the declarations of an interface are
listed alike. -/
theorem owners_map_unnamed_eq_of_perm
    {docs₁ docs₂ : List Document} {r₁ r₂ : Registry} (hperm : docs₁.Perm docs₂)
    (hnames : ∀ d ∈ docs₁, (d.interfaces.map Interface.name).Nodup)
    (h₁ : Indexed docs₁ r₁) (h₂ : Indexed docs₂ r₂) (name : Text) :
    (r₁.owners name).map Owner.unnamed =
      (r₂.owners name).map Owner.unnamed := by
  have hdeclarations : (r₁.declarations.map Owner.unnamed).Perm
      (r₂.declarations.map Owner.unnamed) := by
    rw [h₁.declarations_map_unnamed, h₂.declarations_map_unnamed]
    exact hperm.flatMap_right _
  have howners : ((r₁.owners name).map Owner.unnamed).Perm
    ((r₂.owners name).map Owner.unnamed) :=
    (owners_map_unnamed_perm r₁ name).trans
      ((hdeclarations.filter _).trans (owners_map_unnamed_perm r₂ name).symm)
  have hmem : ∀ o ∈ (r₁.owners name).map Owner.unnamed,
      o ∈ docs₁.flatMap (fun d => declarationsOf d (register d [] false)) ∧
        o.declaration.name = name := by
    intro o ho
    rw [(owners_map_unnamed_perm r₁ name).mem_iff, List.mem_filter, beq_iff_eq,
      h₁.declarations_map_unnamed] at ho
    exact ho
  refine howners.eq_of_pairwise ?_ (owners_map_unnamed_pairwise r₁ name)
    (owners_map_unnamed_pairwise r₂ name)
  intro a b ha hb hab hba
  obtain ⟨hain, haname⟩ := hmem a ha
  obtain ⟨hbin, hbname⟩ := hmem b (howners.mem_iff.2 hb)
  exact eq_of_document_eq h₁.distinct hnames hain hbin
    (Owner.ordered_antisymm hab hba).2.2
    (haname.trans hbname.symm)

/-! ## The root document -/

theorem Indexed.document?_eq_some (h : Indexed docs r) {m : Registration}
    (hm : m ∈ r.documents) :
    r.document? m.document = some m := by
  have hnodup : (r.documents.map Registration.document).Nodup := by
    rw [h.documents_map_path]
    exact h.distinct
  cases hfind : r.document? m.document with
  | none => exact absurd rfl (document?_eq_none_iff.1 hfind m hm)
  | some n =>
    have hsame : n.document = m.document := by simpa using List.find?_some hfind
    rw [List.inj_on_of_nodup_map hnodup
      (List.mem_of_find?_eq_some hfind) hm hsame]

theorem Indexed.documents_map_protocol (h : Indexed docs r) :
    r.documents.map Registration.protocol = docs.map Alias.protocolName := by
  have hmap := congrArg (List.map Registration.protocol) h.registered
  simpa only [List.map_map, Function.comp_def, Registration.unnamed, register]
    using hmap

/-- Where one document at most declares the root protocol, no order decides
which one is the root. -/
theorem Indexed.root_eq (h : Indexed docs r)
    (hroot : r.rules.rootProtocol ≠ [] →
      (docs.map Alias.protocolName).count r.rules.rootProtocol ≤ 1)
      {m : Registration}
    (hm : m ∈ r.documents) :
    m.root =
      (!r.rules.rootProtocol.isEmpty &&
      m.protocol == r.rules.rootProtocol) := by
  rw [Bool.eq_iff_iff, mem_documents_root_iff h hm, Bool.and_eq_true,
    Bool.not_eq_true', List.isEmpty_eq_false_iff]
  refine and_congr_right fun hne => ?_
  constructor
  · intro hfind
    have hprotocol := List.find?_some hfind
    exact hprotocol
  · intro hprotocol
    have hlength :
        (r.documents.filter fun n =>
        n.protocol == r.rules.rootProtocol).length ≤ 1 := by
      have hcount := hroot hne
      rwa [← h.documents_map_protocol, List.count, List.countP_map,
        List.countP_eq_length_filter]
        at hcount
    have hmem : m ∈ r.documents.filter fun n =>
      n.protocol == r.rules.rootProtocol :=
      List.mem_filter.2 ⟨hm, hprotocol⟩
    obtain ⟨n, hfilter⟩ := List.length_eq_one_iff.1
      (Nat.le_antisymm hlength (List.length_pos_of_mem hmem))
    rw [hfilter, List.mem_singleton] at hmem
    rw [← List.head?_filter, hfilter, hmem]
    rfl

theorem Indexed.exists_document (h : Indexed docs r) {o : Owner}
    (ho : o ∈ r.declarations) :
    ∃ m ∈ r.documents, o.document = m.document ∧ o.protocol = m.protocol := by
  rw [h.declared, List.mem_flatMap] at ho
  obtain ⟨⟨d, m⟩, hzip, hdeclared⟩ := ho
  obtain ⟨i, -, rfl⟩ := List.mem_map.1 hdeclared
  exact ⟨m, (List.of_mem_zip hzip).2, rfl, rfl⟩

theorem Indexed.rootOwner?_map_unnamed (h : Indexed docs r)
    (hroot : r.rules.rootProtocol ≠ [] →
      (docs.map Alias.protocolName).count r.rules.rootProtocol ≤ 1)
      (name : Text) :
    (r.rootOwner? name).map Owner.unnamed =
      ((r.owners name).map Owner.unnamed).find? fun o =>
        !r.rules.rootProtocol.isEmpty &&
          o.protocol == r.rules.rootProtocol := by
  have hpred : ∀ o ∈ r.owners name,
      ((r.document? o.document).map Registration.root).getD false =
        (!r.rules.rootProtocol.isEmpty &&
        o.protocol == r.rules.rootProtocol) := by
    intro o ho
    obtain ⟨m, hm, hdocument, hprotocol⟩ :=
      h.exists_document (mem_owners_iff.1 ho).1
    rw [hdocument, h.document?_eq_some hm, hprotocol, ← h.root_eq hroot hm]
    rfl
  rw [rootOwner?, List.find?_map, List.find?_congr hpred]
  rfl

end Registry

/-! ## Two orders of the same documents -/

namespace Resolution

variable {r₁ r₂ : Registry}

/-- The declaration in another document that two registries find alike decides
the whole answer. -/
theorem withoutAliases_bind
    {α : Type} {unnamed : α → α} {answer : Owner → α}
    {x y : Except LookupError Owner}
    (hxy : withoutAliases Owner.unnamed x = withoutAliases Owner.unnamed y)
    (hanswer : ∀ o, unnamed (answer o) = unnamed (answer o.unnamed)) :
    withoutAliases unnamed (x >>= fun o => pure (answer o)) =
      withoutAliases unnamed (y >>= fun o => pure (answer o)) := by
  cases x with
  | error e =>
    cases y with
    | error f => exact congrArg Except.error (Except.error.inj hxy)
    | ok p => cases hxy
  | ok o =>
    cases y with
    | error f => cases hxy
    | ok p =>
      have hunnamed : o.unnamed = p.unnamed := Except.ok.inj hxy
      change Except.ok (unnamed (answer o)) = Except.ok (unnamed (answer p))
      rw [hanswer o, hanswer p, hunnamed]

theorem withoutAliases_owner
    (howners : ∀ name, (r₁.owners name).map Owner.unnamed =
      (r₂.owners name).map Owner.unnamed)
    (d : Document) (name : Text) (unresolved ambiguous : Code) :
    withoutAliases Owner.unnamed (owner r₁ d name unresolved ambiguous) =
      withoutAliases Owner.unnamed (owner r₂ d name unresolved ambiguous) := by
  rw [owner_eq_choose, owner_eq_choose, ← choose_map_unnamed,
    ← choose_map_unnamed, howners]

theorem withoutAliases_interface (hrules : r₁.rules = r₂.rules)
    (howners : ∀ name, (r₁.owners name).map Owner.unnamed =
      (r₂.owners name).map Owner.unnamed)
    (d : Document) (name : Text) :
    withoutAliases Target.unnamed (interface r₁ d name) =
      withoutAliases Target.unnamed (interface r₂ d name) := by
  unfold interface
  rw [hrules]
  split
  next => rfl
  next =>
    split
    next => rfl
    next =>
      refine withoutAliases_bind (withoutAliases_owner howners d name _ _) ?_
      intro o
      rfl

theorem unnamed_withEnum
    (o : Owner) (name target enumName : Text) :
    EnumTarget.unnamed
        ⟨withEnum ⟨o.aliasName, name, target⟩ (some o.declaration) enumName,
        some o⟩ =
      EnumTarget.unnamed
        ⟨withEnum ⟨[], name, target⟩ (some o.declaration) enumName,
        some o.unnamed⟩ := by
  unfold withEnum
  split
  next => rfl
  next => rfl

theorem withoutAliases_enumeration (hrules : r₁.rules = r₂.rules)
    (howners : ∀ name, (r₁.owners name).map Owner.unnamed =
      (r₂.owners name).map Owner.unnamed)
    (hroot : ∀ name, (r₁.rootOwner? name).map Owner.unnamed =
      (r₂.rootOwner? name).map Owner.unnamed)
    (d : Document) (enclosing : Interface) (written : Text) :
    withoutAliases EnumTarget.unnamed (enumeration r₁ d enclosing written) =
      withoutAliases EnumTarget.unnamed
      (enumeration r₂ d enclosing written) := by
  have hdeclaration : ∀ name,
      (r₁.rootOwner? name).map Owner.declaration =
      (r₂.rootOwner? name).map Owner.declaration := by
    intro name
    simpa only [Option.map_map, Function.comp_def, Owner.unnamed] using
      congrArg (Option.map Owner.declaration) (hroot name)
  unfold enumeration
  rw [hrules]
  split
  next => rfl
  next name enumName _ =>
    split
    next => rfl
    next =>
      split
      next => rw [hdeclaration]
      next =>
        refine withoutAliases_bind (withoutAliases_owner howners d name _ _) ?_
        intro o
        exact unnamed_withEnum o _ name enumName

/-- Two registries give every reference the same meaning up to aliases. -/
structure Agree (r₁ r₂ : Registry) : Prop where
  owners : ∀ name, (r₁.owners name).map Owner.unnamed =
    (r₂.owners name).map Owner.unnamed
  interface : ∀ d name,
    withoutAliases Target.unnamed (interface r₁ d name) =
      withoutAliases Target.unnamed (interface r₂ d name)
  enumeration : ∀ d enclosing written,
    withoutAliases EnumTarget.unnamed (enumeration r₁ d enclosing written) =
      withoutAliases EnumTarget.unnamed (enumeration r₂ d enclosing written)

/-- Registries of the same documents in two orders agree. Paths are distinct, or
nothing is built. -/
theorem agree_of_perm
    {rules : NamingRules} {docs₁ docs₂ : List Document} {r₁ r₂ : Registry}
    (hperm : docs₁.Perm docs₂)
    (hnames : ∀ d ∈ docs₁, (d.interfaces.map Interface.name).Nodup)
    (hroot : rules.rootProtocol ≠ [] →
      (docs₁.map Alias.protocolName).count rules.rootProtocol ≤ 1)
    (h₁ : Registry.build rules docs₁ = .ok r₁)
    (h₂ : Registry.build rules docs₂ = .ok r₂) :
    Agree r₁ r₂ := by
  obtain ⟨hrules₁, hindexed₁⟩ := Registry.indexed_of_build h₁
  obtain ⟨hrules₂, hindexed₂⟩ := Registry.indexed_of_build h₂
  have howners :=
    Registry.owners_map_unnamed_eq_of_perm hperm hnames hindexed₁ hindexed₂
  have hrules : r₁.rules = r₂.rules := hrules₁.trans hrules₂.symm
  have hroot₂ : rules.rootProtocol ≠ [] →
      (docs₂.map Alias.protocolName).count rules.rootProtocol ≤ 1 := by
    rwa [← (hperm.map Alias.protocolName).count_eq]
  have hrootOwner : ∀ name,
      (r₁.rootOwner? name).map Owner.unnamed =
      (r₂.rootOwner? name).map Owner.unnamed := by
    intro name
    rw [hindexed₁.rootOwner?_map_unnamed (hrules₁ ▸ hroot),
      hindexed₂.rootOwner?_map_unnamed (hrules₂ ▸ hroot₂), howners, hrules]
  constructor
  case owners => exact howners
  case interface => exact withoutAliases_interface hrules howners
  case enumeration => exact withoutAliases_enumeration hrules howners hrootOwner

/-- A corpus in which two documents declare the same interface and want the same
alias. -/
def shuffled : List Document :=
  let tool : Interface := { name := "zwp_tool", enums := [{ name := "axis" }] }
  let display : Interface := { name := "wl_display" }
  [{ path := "a.xml", importPath := "p/a",
     protocol := some { name := "tablet", interfaces := [tool] } },
    { path := "b.xml", importPath := "p/b",
      protocol := some { name := "tablet", interfaces := [tool] } },
    { path := "c.xml", importPath := "p/c",
      protocol := some { name := "wayland", interfaces := [display] } }]

/-- The two documents change their aliases with the order, and references keep
their meaning. -/
theorem shuffled_agree :
    ∃ r₁ r₂, Registry.build {} shuffled = .ok r₁ ∧
    Registry.build {} shuffled.reverse = .ok r₂ ∧
      r₁.documents.map Registration.aliasName =
      [Text.ofString "zwp_tool", "tablet", "wl"] ∧
      r₂.documents.map Registration.aliasName =
      [Text.ofString "wl", "zwp_tool", "tablet"] ∧
      Agree r₁ r₂ := by
  have hfirst : (Registry.build {} shuffled).map
      (fun r => r.documents.map Registration.aliasName) =
      .ok [Text.ofString "zwp_tool", "tablet", "wl"] := by
    decide +kernel
  have hsecond : (Registry.build {} shuffled.reverse).map
      (fun r => r.documents.map Registration.aliasName) =
      .ok [Text.ofString "wl", "zwp_tool", "tablet"] := by
    decide +kernel
  obtain ⟨r₁, h₁, haliases₁⟩ := Chain.map_eq_ok_iff.1 hfirst
  obtain ⟨r₂, h₂, haliases₂⟩ := Chain.map_eq_ok_iff.1 hsecond
  refine ⟨r₁, r₂, h₁, h₂, haliases₁, haliases₂, ?_⟩
  exact agree_of_perm (List.reverse_perm _).symm (by decide +kernel)
    (fun _ => by decide +kernel) h₁ h₂

end Resolution

end ProtocolCorpus
