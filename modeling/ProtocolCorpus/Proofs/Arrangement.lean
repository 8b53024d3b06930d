import ProtocolCorpus.Proofs.Coverage

/-!
# Documents in another order

The import graph is built from a row of documents, each with a row of imports.
Neither order matters, and neither does an import that is repeated: names are
numbered in their own order, and the edges, the waves and the digests follow
from the numbers. So the same documents are emitted in the same order, the same
ones are left over, and each has the same digest.
-/

namespace ProtocolCorpus

/-- Documents with the same name, the same content and the same imports, in
whatever order. -/
structure GraphDocument.Alike (d d' : GraphDocument) : Prop where
  path_eq : d'.path = d.path
  contentDigest_eq : d'.contentDigest = d.contentDigest
  imports_iff : ∀ n, n ∈ d'.imports.map ImportTarget.path ↔
    n ∈ d.imports.map ImportTarget.path

namespace ImportGraph

/-- The same documents in another order, the imports of each in another order or
repeated. -/
def Rearranged (nodes nodes' : List GraphNode) : Prop :=
  ∃ arranged, nodes.Perm arranged ∧
    List.Forall₂ (fun x y => GraphDocument.Alike x.document y.document)
    arranged nodes'

def leftOver (nodes : List GraphNode) : List Text :=
  (ofNodes nodes).waves.left.map (ofNodes nodes).name

/-! ## Documents by name -/

section Names

variable {nodes nodes' : List GraphNode}

theorem mem_names_iff {n : Text} :
    n ∈ (ofNodes nodes).names ↔
      n ≠ [] ∧ ∃ x ∈ nodes, n = x.document.path ∨
      n ∈ x.document.imports.map ImportTarget.path := by
  change n ∈ nameAll (nodes.map GraphNode.document) ↔ _
  rw [nameAll, mem_joinEqual_iff, Text.sort, List.mem_mergeSort,
    List.mem_filter, List.flatMap_map, List.mem_flatMap]
  simp only [List.mem_cons, Bool.not_eq_true', List.isEmpty_eq_false_iff]
  exact and_comm

/-- Names in ascending order, each once, are determined by which they are. -/
theorem nameAll_eq_of_mem_iff
    {docs docs' : List GraphDocument}
    (h : ∀ n, n ∈ nameAll docs' ↔ n ∈ nameAll docs) :
    nameAll docs' = nameAll docs := by
  have hperm : (nameAll docs').Perm (nameAll docs) :=
    (List.perm_ext_iff_of_nodup (nodup_nameAll docs') (nodup_nameAll docs)).2 h
  refine hperm.eq_of_pairwise ?_ (pairwise_nameAll docs')
    (pairwise_nameAll docs)
  intro a b _ _ hab hba
  exact Text.le_antisymm (Text.before_iff_le_and_ne.1 hab).1
    (Text.before_iff_le_and_ne.1 hba).1

theorem exists_mem_iff_of_forall₂
    {α β : Type} {R : α → β → Prop} {P : α → Prop} {Q : β → Prop}
    (hPQ : ∀ a b, R a b → (Q b ↔ P a)) {as : List α} {bs : List β}
    (h : List.Forall₂ R as bs) :
    (∃ b ∈ bs, Q b) ↔ ∃ a ∈ as, P a := by
  induction h with
  | nil => simp
  | cons hab _ ih => simp only [List.exists_mem_cons_iff, hPQ _ _ hab, ih]

theorem Rearranged.names_eq (h : Rearranged nodes nodes') :
    (ofNodes nodes').names = (ofNodes nodes).names := by
  obtain ⟨arranged, hperm, halike⟩ := h
  apply nameAll_eq_of_mem_iff
  intro n
  have hnamed :
      (∃ y ∈ nodes', n = y.document.path ∨
      n ∈ y.document.imports.map ImportTarget.path) ↔
      ∃ x ∈ arranged, n = x.document.path ∨
      n ∈ x.document.imports.map ImportTarget.path := by
    refine exists_mem_iff_of_forall₂ ?_ halike
    intro x y hxy
    rw [hxy.path_eq, hxy.imports_iff]
  refine mem_names_iff.trans (Iff.trans ?_ mem_names_iff.symm)
  rw [hnamed]
  simp only [hperm.mem_iff]

/-- Where no name is taken twice, it does not matter in which order documents
are looked for. -/
theorem slot_eq_of_perm
    {arranged : List GraphNode} (hperm : nodes.Perm arranged)
    (hdistinct : (paths nodes).Nodup) (p : Text) :
    slot arranged p = slot nodes p := by
  have hdistinct' : (paths arranged).Nodup :=
    (hperm.map _).nodup_iff.1 hdistinct
  ext x
  constructor
  · intro hx
    obtain ⟨hmem, rfl⟩ := mem_and_path_eq_of_slot hx
    exact slot_path_eq_some hdistinct (hperm.mem_iff.2 hmem)
  · intro hx
    obtain ⟨hmem, rfl⟩ := mem_and_path_eq_of_slot hx
    exact slot_path_eq_some hdistinct' (hperm.mem_iff.1 hmem)

theorem slot_rel_of_forall₂
    {arranged : List GraphNode}
    (h : List.Forall₂ (fun x y => GraphDocument.Alike x.document y.document)
      arranged nodes') (p : Text) :
    Option.Rel (fun x y => GraphDocument.Alike x.document y.document)
      (slot arranged p) (slot nodes' p) := by
  induction h with
  | nil => exact .none
  | @cons x y _ _ hxy _ ih =>
    by_cases hp : x.document.path = p
    · have hx : (x.document.path == p) = true := beq_iff_eq.2 hp
      rw [slot, slot, List.find?_cons, List.find?_cons, hxy.path_eq, hx]
      exact .some hxy
    · have hx : (x.document.path == p) = false := beq_false_of_ne hp
      rw [slot, slot, List.find?_cons, List.find?_cons, hxy.path_eq, hx]
      exact ih

theorem Rearranged.slot_rel
    (h : Rearranged nodes nodes') (hdistinct : (paths nodes).Nodup) (p : Text) :
    Option.Rel (fun x y => GraphDocument.Alike x.document y.document)
      (slot nodes p) (slot nodes' p) := by
  obtain ⟨arranged, hperm, halike⟩ := h
  rw [← slot_eq_of_perm hperm hdistinct p]
  exact slot_rel_of_forall₂ halike p

end Names

/-! ## The graph -/

theorem edgesOf_eq_of_alike
    {d d' : GraphDocument} (h : d.Alike d') (names : List Text) (self : Nat) :
    edgesOf names self d' = edgesOf names self d := by
  have hcontains : ∀ n, (d'.imports.map ImportTarget.path).contains n =
      (d.imports.map ImportTarget.path).contains n := by
    intro n
    rw [Bool.eq_iff_iff, List.contains_iff_mem, List.contains_iff_mem,
      h.imports_iff]
  simp only [edgesOf, hcontains]

/-- What is the same for documents alike is the same for what stands under one
name. -/
theorem apply_eq_of_rel
    {γ : Type} {F : Option GraphNode → γ}
    (hF : ∀ x y : GraphNode, x.document.Alike y.document →
      F (some y) = F (some x))
    {x? y? : Option GraphNode}
    (h : Option.Rel (fun x y => GraphDocument.Alike x.document y.document) x?
      y?) :
    F y? = F x? := by
  cases h with
  | none => rfl
  | some hxy => exact hF _ _ hxy

section Graph

variable {nodes nodes' : List GraphNode}

theorem Rearranged.node?_rel
    (h : Rearranged nodes nodes') (hdistinct : (paths nodes).Nodup) (id : Nat) :
    Option.Rel (fun x y => GraphDocument.Alike x.document y.document)
      ((ofNodes nodes).node? id)
      ((ofNodes nodes').node? id) := by
  have hnames : nameAll (nodes'.map GraphNode.document) =
    nameAll (nodes.map GraphNode.document) :=
    h.names_eq
  rw [ofNodes, ofNodes, node?_build, node?_build, hnames]
  cases (nameAll (nodes.map GraphNode.document))[id]? with
  | none => exact .none
  | some n => exact h.slot_rel hdistinct n

theorem Rearranged.sameShape
    (h : Rearranged nodes nodes') (hdistinct : (paths nodes).Nodup) :
    SameShape (ofNodes nodes') (ofNodes nodes) := by
  constructor
  case names_eq => exact h.names_eq
  case edges_eq =>
    have hnames : nameAll (nodes'.map GraphNode.document) =
      nameAll (nodes.map GraphNode.document) :=
      h.names_eq
    simp only [ofNodes, build, hnames]
    apply List.map_congr_left
    rintro ⟨n, id⟩ _
    have hslot := h.slot_rel hdistinct n
    dsimp only
    generalize slot nodes n = x? at hslot ⊢
    generalize slot nodes' n = y? at hslot ⊢
    cases hslot with
    | none => rfl
    | some hxy => exact edgesOf_eq_of_alike hxy _ id
  case present_eq =>
    intro id
    exact apply_eq_of_rel (F := Option.isSome) (fun _ _ _ => rfl)
      (h.node?_rel hdistinct id)

theorem Rearranged.contentDigest_eq
    (h : Rearranged nodes nodes') (hdistinct : (paths nodes).Nodup) (id : Nat) :
    (ofNodes nodes').contentDigest id = (ofNodes nodes).contentDigest id := by
  refine apply_eq_of_rel
    (F := fun x? =>
    (x?.map fun x : GraphNode => x.document.contentDigest).getD []) ?_
    (h.node?_rel hdistinct id)
  intro x y hxy
  exact hxy.contentDigest_eq

end Graph

/-- Graphs of one shape with the same contents have the same digests. -/
theorem SameShape.digest_eq
    {g g' : ImportGraph} (h : SameShape g g')
    (hcontent : ∀ id, g.contentDigest id = g'.contentDigest id) :
    g.digest = g'.digest := by
  have hadd : g.addDigest = g'.addDigest := by
    funext known id
    rw [addDigest, addDigest, hcontent, h.targets_eq]
  funext id
  simp only [digest, digests, orderedDigests, h.waves_eq, hadd, hcontent]

theorem SameShape.name_eq {g g' : ImportGraph} (h : SameShape g g') :
    g.name = g'.name := by
  funext id
  rw [name, name, h.names_eq]

/-- What two rows of documents have in common if their graphs come to the same.
-/
structure SameOutcome (nodes nodes' : List GraphNode) : Prop where
  emitted_eq : emitted nodes' = emitted nodes
  leftOver_eq : leftOver nodes' = leftOver nodes
  isCyclic_eq : (ofNodes nodes').waves.isCyclic = (ofNodes nodes).waves.isCyclic
  documentDigest_eq : ∀ p, documentDigest nodes' p = documentDigest nodes p

/-- The order of documents and of their imports does not matter. -/
theorem sameOutcome_of_rearranged
    {nodes nodes' : List GraphNode} (hdistinct : (paths nodes).Nodup)
    (h : Rearranged nodes nodes') :
    SameOutcome nodes nodes' := by
  have hshape := h.sameShape hdistinct
  constructor
  case emitted_eq =>
    rw [emitted_eq_map, emitted_eq_map, hshape.waves_eq, hshape.name_eq]
  case leftOver_eq => rw [leftOver, leftOver, hshape.waves_eq, hshape.name_eq]
  case isCyclic_eq => rw [hshape.waves_eq]
  case documentDigest_eq =>
    intro p
    rw [documentDigest, documentDigest,
      hshape.digest_eq (h.contentDigest_eq hdistinct), hshape.names_eq]

/-- Every import again, in the opposite order, and the documents in the opposite
order too. -/
def shuffled (nodes : List GraphNode) : List GraphNode :=
  nodes.reverse.map fun x =>
    { x with document := { x.document with
        imports := x.document.imports ++ x.document.imports.reverse } }

theorem tangle_shuffled :
    (paths tangle).Nodup ∧ Rearranged tangle (shuffled tangle) ∧
      leftOver (shuffled tangle) =
      ["leaf.xml", "left.xml", "right.xml"].map Text.ofString ∧
      SameOutcome tangle (shuffled tangle) := by
  have hdistinct : (paths tangle).Nodup := by decide +kernel
  have hshuffled : Rearranged tangle (shuffled tangle) := by
    refine ⟨tangle.reverse, tangle.reverse_perm.symm, ?_⟩
    rw [shuffled, List.forall₂_map_right_iff, List.forall₂_same]
    intro x _
    exact ⟨rfl, rfl, by simp⟩
  have houtcome := sameOutcome_of_rearranged hdistinct hshuffled
  refine ⟨hdistinct, hshuffled, ?_, houtcome⟩
  rw [houtcome.leftOver_eq, leftOver, waves_tangle]
  cbv

end ImportGraph

end ProtocolCorpus
