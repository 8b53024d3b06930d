import Mathlib
import ProtocolCorpus.Proofs.Order
import ProtocolCorpus.Proofs.Waves

/-!
# The order of emission

The import graph numbers documents by their names, so what the loop over waves
does to numbers is carried over to documents here. Every document is emitted
once; documents import each other in a circle if and only if the graph is found
to be cyclic, and if it is not, a document is emitted after all it imports.
-/

namespace ProtocolCorpus

namespace ImportGraph

def paths (nodes : List GraphNode) : List Text :=
  nodes.map fun x => x.document.path

/-- One loaded document imports another one. -/
def Imports (nodes : List GraphNode) (p q : Text) : Prop :=
  p ≠ q ∧ q ∈ paths nodes ∧
    ∃ x ∈ nodes, x.document.path = p ∧
    q ∈ x.document.imports.map ImportTarget.path

/-- The document that is loaded under a name: the first of that name, and none
under the empty name. -/
def nodeNamed? (nodes : List GraphNode) (p : Text) : Option GraphNode :=
  if p = [] then none else slot nodes p

/-- The document loaded under one name imports the one loaded under another.
`Imports` says this of any document with the first name, be it one that was
passed over because its name was taken. -/
def Needs (nodes : List GraphNode) (p q : Text) : Prop :=
  p ≠ q ∧ (nodeNamed? nodes q).isSome = true ∧
    ∃ x, nodeNamed? nodes p = some x ∧
    q ∈ x.document.imports.map ImportTarget.path

instance needsDecidable (nodes : List GraphNode)
    (p q : Text) : Decidable (Needs nodes p q) :=
  inferInstanceAs (Decidable (p ≠ q ∧ (nodeNamed? nodes q).isSome = true ∧
    ∃ x ∈ nodeNamed? nodes p, q ∈ x.document.imports.map ImportTarget.path))

/-! ## Names -/

theorem mem_joinEqual_iff {l : List Text} {n : Text} :
    n ∈ joinEqual l ↔ n ∈ l := by
  fun_induction joinEqual l with
  | case1 a rest ih =>
    rw [ih, List.mem_cons, List.mem_cons, List.mem_cons, ← or_assoc, or_self]
  | case2 a b rest _ ih => rw [List.mem_cons, ih, ← List.mem_cons]
  | case3 => rfl

theorem pairwise_joinEqual
    {l : List Text} (h : l.Pairwise fun a b => Text.le a b = true) :
    (joinEqual l).Pairwise fun a b => Text.before a b = true := by
  fun_induction joinEqual l with
  | case1 a rest ih => exact ih h.tail
  | case2 a b rest hne ih =>
    refine List.Pairwise.cons ?_ (ih h.tail)
    intro n hn
    have hle : Text.le a n = true :=
      List.rel_of_pairwise_cons h (mem_joinEqual_iff.1 hn)
    refine Text.before_iff_le_and_ne.2 ⟨hle, ?_⟩
    rintro rfl
    have hab : Text.le a b = true :=
      List.rel_of_pairwise_cons h List.mem_cons_self
    rcases List.mem_cons.1 (mem_joinEqual_iff.1 hn) with heq | hmem
    · exact hne heq
    · exact hne (Text.le_antisymm hab (List.rel_of_pairwise_cons h.tail hmem))
  | case3 l hshort =>
    rcases l with _ | ⟨a, _ | ⟨b, rest⟩⟩
    · exact List.Pairwise.nil
    · exact List.pairwise_singleton _ _
    · exact absurd rfl (hshort a b rest)

theorem pairwise_nameAll (docs : List GraphDocument) :
    (nameAll docs).Pairwise fun a b => Text.before a b = true :=
  pairwise_joinEqual (List.pairwise_mergeSort Text.le_trans Text.le_total _)

theorem nodup_nameAll (docs : List GraphDocument) :
    (nameAll docs).Nodup :=
  (pairwise_nameAll docs).imp fun hbefore =>
    (Text.before_iff_le_and_ne.1 hbefore).2

theorem path_mem_nameAll
    {docs : List GraphDocument} {d : GraphDocument} (hd : d ∈ docs)
    (hne : d.path ≠ []) :
    d.path ∈ nameAll docs := by
  rw [nameAll, mem_joinEqual_iff, Text.sort, List.mem_mergeSort,
    List.mem_filter, List.mem_flatMap]
  exact ⟨⟨d, hd, List.mem_cons_self⟩, by simpa using hne⟩

theorem ne_nil_of_mem_nameAll {docs : List GraphDocument} {n : Text}
    (hn : n ∈ nameAll docs) :
    n ≠ [] := by
  rw [nameAll, mem_joinEqual_iff, Text.sort, List.mem_mergeSort,
    List.mem_filter] at hn
  simpa using hn.2

/-! ## The graph over given names -/

section Build

variable {names : List Text} {nodes : List GraphNode}

theorem node?_build (id : Nat) :
    (build names nodes).node? id = names[id]?.bind (slot nodes) := by
  rw [node?, build, List.getElem?_map]
  cases names[id]? with
  | none => rfl
  | some n => rfl

theorem targets_build (u : Nat) :
    (build names nodes).targets u =
      (((build names nodes).node? u).map fun x =>
      edgesOf names u x.document).getD [] := by
  rw [node?_build, targets, build, List.getElem?_map, List.getElem?_zipIdx,
    Nat.zero_add]
  cases names[u]? with
  | none => rfl
  | some n =>
    simp only [Option.map_some, Option.getD_some, Option.bind_some]
    cases slot nodes n with
    | none => rfl
    | some x => rfl

theorem mem_edgesOf_iff {self v : Nat} {d : GraphDocument} :
    v ∈ edgesOf names self d ↔
      v ≠ self ∧ ∃ n, names[v]? = some n ∧
      n ∈ d.imports.map ImportTarget.path := by
  simp only [edgesOf, List.mem_filterMap, List.contains_iff_mem,
    Option.ite_none_right_eq_some, Option.some.injEq]
  constructor
  · rintro ⟨⟨n, id⟩, hmem, ⟨hself, himported⟩, rfl⟩
    exact ⟨hself, n, List.mem_zipIdx_iff_getElem?.1 hmem, himported⟩
  · rintro ⟨hself, n, hname, himported⟩
    exact ⟨(n, v), List.mem_zipIdx_iff_getElem?.2 hname,
      ⟨hself, himported⟩, rfl⟩

theorem pairwise_edgesOf (self : Nat) (d : GraphDocument) :
    (edgesOf names self d).Pairwise (· < ·) := by
  have hids : names.zipIdx.Pairwise fun a b => a.2 < b.2 := by
    rw [← List.pairwise_map (f := Prod.snd), List.zipIdx_map_snd]
    exact List.pairwise_lt_range'
  refine hids.filterMap _ ?_
  intro a b hlt u hu v hv
  simp only [Option.ite_none_right_eq_some, Option.some.injEq] at hu hv
  rw [← hu.2, ← hv.2]
  exact hlt

theorem proper_build :
    Proper (build names nodes) := by
  constructor
  case length_slots => exact List.length_map _
  case nodup_targets =>
    intro u
    rw [targets_build]
    cases (build names nodes).node? u with
    | none => exact List.nodup_nil
    | some x => exact (pairwise_edgesOf u x.document).imp Nat.ne_of_lt
  case not_mem_targets =>
    intro u hu
    rw [targets_build] at hu
    cases hnode : (build names nodes).node? u with
    | none =>
      rw [hnode] at hu
      cases hu
    | some x =>
      rw [hnode] at hu
      exact (mem_edgesOf_iff.1 hu).1 rfl
  case targets_absent =>
    intro u hu
    rw [present, Option.isSome_eq_false_iff, Option.isNone_iff_eq_none] at hu
    rw [targets_build, hu]
    rfl

theorem imports_build_iff {u v : Nat} :
    (build names nodes).imports u v = true ↔
      ∃ x, (build names nodes).node? u = some x ∧ v ≠ u ∧
        ∃ n, names[v]? = some n ∧
        n ∈ x.document.imports.map ImportTarget.path := by
  rw [imports_iff, targets_build]
  cases (build names nodes).node? u with
  | none => simp
  | some x => simp [mem_edgesOf_iff]

end Build

/-! ## Numbers and documents -/

section Documents

variable {nodes : List GraphNode} {n p : Text} {x : GraphNode} {u v id : Nat}

theorem proper_ofNodes (nodes : List GraphNode) :
    (ofNodes nodes).Proper :=
  proper_build

theorem slot_isSome_iff :
    (slot nodes n).isSome = true ↔ n ∈ paths nodes := by
  rw [slot, List.find?_isSome, paths, List.mem_map]
  simp only [beq_iff_eq]

theorem mem_and_path_eq_of_slot (h : slot nodes n = some x) :
    x ∈ nodes ∧ x.document.path = n := by
  have hpath := List.find?_some h
  exact ⟨List.mem_of_find?_eq_some h, beq_iff_eq.1 hpath⟩

theorem slot_path_eq_some (hdistinct : (paths nodes).Nodup) (hx : x ∈ nodes) :
    slot nodes x.document.path = some x := by
  have hsome : (slot nodes x.document.path).isSome = true :=
    slot_isSome_iff.2 (List.mem_map_of_mem hx)
  obtain ⟨y, hslot⟩ := Option.isSome_iff_exists.1 hsome
  obtain ⟨hy, hpath⟩ := mem_and_path_eq_of_slot hslot
  rw [hslot, List.inj_on_of_nodup_map hdistinct hy hx hpath]

theorem eq_of_name_eq (hu : (ofNodes nodes).names[u]? = some n)
    (hv : (ofNodes nodes).names[v]? = some n) :
    u = v := by
  obtain ⟨hlt, -⟩ := List.getElem?_eq_some_iff.1 hu
  exact (List.getElem?_inj hlt (nodup_nameAll _)).1 (hu.trans hv.symm)

theorem mem_loaded_ofNodes_iff :
    id ∈ (ofNodes nodes).loaded ↔
      ∃ n, (ofNodes nodes).names[id]? = some n ∧ n ∈ paths nodes := by
  rw [ofNodes, proper_build.mem_loaded_iff, present, node?_build,
    Option.isSome_bind, Option.any_eq_true]
  simp only [slot_isSome_iff]
  rfl

theorem name_eq (h : (ofNodes nodes).names[id]? = some n) :
    (ofNodes nodes).name id = n := by
  rw [name, h]
  rfl

theorem idxOf_name (hid : id ∈ (ofNodes nodes).loaded) :
    (ofNodes nodes).names.idxOf ((ofNodes nodes).name id) = id := by
  obtain ⟨n, hn, -⟩ := mem_loaded_ofNodes_iff.1 hid
  rw [name_eq hn]
  exact eq_of_name_eq (List.getElem?_idxOf (List.mem_of_getElem? hn)) hn

theorem getElem?_idxOf_ofNodes (hne : p ≠ []) (hp : p ∈ paths nodes) :
    (ofNodes nodes).names[(ofNodes nodes).names.idxOf p]? = some p := by
  obtain ⟨x, hx, rfl⟩ := List.mem_map.1 hp
  exact List.getElem?_idxOf (path_mem_nameAll (List.mem_map_of_mem hx) hne)

theorem ne_nil_of_mem_paths (hnamed : ∀ x ∈ nodes, x.document.path ≠ [])
    (hp : p ∈ paths nodes) :
    p ≠ [] := by
  obtain ⟨x, hx, rfl⟩ := List.mem_map.1 hp
  exact hnamed x hx

theorem nodeNamed?_eq_some_iff :
    nodeNamed? nodes p = some x ↔ p ≠ [] ∧ slot nodes p = some x := by
  rw [nodeNamed?]
  split
  next hp => simp [hp]
  next hp => simp [hp]

theorem nodeNamed?_isSome_iff :
    (nodeNamed? nodes p).isSome = true ↔ p ≠ [] ∧ p ∈ paths nodes := by
  rw [← slot_isSome_iff, Option.isSome_iff_exists, Option.isSome_iff_exists]
  simp only [nodeNamed?_eq_some_iff, exists_and_left]

theorem node?_ofNodes (id : Nat) :
    (ofNodes nodes).node? id = (ofNodes nodes).names[id]?.bind
    (nodeNamed? nodes) := by
  rw [ofNodes, node?_build]
  refine Option.bind_congr fun n hn => ?_
  exact (if_neg (ne_nil_of_mem_nameAll (List.mem_of_getElem? hn))).symm

theorem node?_idxOf (h : nodeNamed? nodes p = some x) :
    (ofNodes nodes).node? ((ofNodes nodes).names.idxOf p) = some x := by
  obtain ⟨hne, hp⟩ := nodeNamed?_isSome_iff.1 (Option.isSome_of_eq_some h)
  rw [node?_ofNodes, getElem?_idxOf_ofNodes hne hp, Option.bind_some, h]

theorem nodeNamed?_name (h : (ofNodes nodes).node? id = some x) :
    nodeNamed? nodes ((ofNodes nodes).name id) = some x := by
  rw [node?_ofNodes] at h
  obtain ⟨n, hn, hx⟩ := Option.bind_eq_some_iff.1 h
  rw [name_eq hn, hx]

theorem name_idxOf (h : (nodeNamed? nodes p).isSome = true) :
    (ofNodes nodes).name ((ofNodes nodes).names.idxOf p) = p := by
  obtain ⟨hne, hp⟩ := nodeNamed?_isSome_iff.1 h
  exact name_eq (getElem?_idxOf_ofNodes hne hp)

theorem mem_loaded_iff_node? :
    id ∈ (ofNodes nodes).loaded ↔ ∃ x, (ofNodes nodes).node? id = some x := by
  rw [ofNodes, proper_build.mem_loaded_iff, present, Option.isSome_iff_exists]

theorem idxOf_mem_loaded (h : (nodeNamed? nodes p).isSome = true) :
    (ofNodes nodes).names.idxOf p ∈ (ofNodes nodes).loaded := by
  obtain ⟨x, hx⟩ := Option.isSome_iff_exists.1 h
  exact mem_loaded_iff_node?.2 ⟨x, node?_idxOf hx⟩

theorem edge_of_needs {q : Text} (h : Needs nodes p q) :
    (ofNodes nodes).Edge ((ofNodes nodes).names.idxOf p)
    ((ofNodes nodes).names.idxOf q) := by
  obtain ⟨hne, hq, x, hx, himported⟩ := h
  have hp : (nodeNamed? nodes p).isSome = true := Option.isSome_of_eq_some hx
  obtain ⟨hqne, hqpath⟩ := nodeNamed?_isSome_iff.1 hq
  refine ⟨idxOf_mem_loaded hp, idxOf_mem_loaded hq, ?_⟩
  refine imports_build_iff.2
    ⟨x, node?_idxOf hx, ?_, q, getElem?_idxOf_ofNodes hqne hqpath, himported⟩
  intro hsame
  apply hne
  rw [← name_idxOf hp, ← name_idxOf hq, hsame]

theorem needs_of_edge (h : (ofNodes nodes).Edge u v) :
    Needs nodes ((ofNodes nodes).name u) ((ofNodes nodes).name v) := by
  obtain ⟨hu, hv, himports⟩ := h
  obtain ⟨y, hy⟩ := mem_loaded_iff_node?.1 hv
  obtain ⟨x, hx, hne, n, hn, himported⟩ := imports_build_iff.1 himports
  refine ⟨?_, Option.isSome_of_eq_some (nodeNamed?_name hy), x,
    nodeNamed?_name hx, ?_⟩
  · intro hsame
    apply hne
    rw [← idxOf_name hu, ← idxOf_name hv, hsame]
  · rw [name_eq hn]
    exact himported

theorem edge_of_imports (hdistinct : (paths nodes).Nodup)
    (hnamed : ∀ x ∈ nodes, x.document.path ≠ []) {q : Text}
    (h : Imports nodes p q) :
    (ofNodes nodes).Edge ((ofNodes nodes).names.idxOf p)
      ((ofNodes nodes).names.idxOf q) := by
  obtain ⟨hne, hq, x, hx, rfl, himported⟩ := h
  have hnode : nodeNamed? nodes x.document.path = some x :=
    nodeNamed?_eq_some_iff.2 ⟨hnamed x hx, slot_path_eq_some hdistinct hx⟩
  exact edge_of_needs
    ⟨hne, nodeNamed?_isSome_iff.2 ⟨ne_nil_of_mem_paths hnamed hq, hq⟩, x,
    hnode, himported⟩

theorem imports_of_edge (h : (ofNodes nodes).Edge u v) :
    Imports nodes ((ofNodes nodes).name u) ((ofNodes nodes).name v) := by
  obtain ⟨hne, hv, x, hx, himported⟩ := needs_of_edge h
  obtain ⟨hmem, hpath⟩ :=
    mem_and_path_eq_of_slot (nodeNamed?_eq_some_iff.1 hx).2
  exact ⟨hne, (nodeNamed?_isSome_iff.1 hv).2, x, hmem, hpath, himported⟩

/-- The graph has a cycle if and only if documents import each other in a
circle. -/
theorem forall_not_transGen_iff
    (hdistinct : (paths nodes).Nodup)
    (hnamed : ∀ x ∈ nodes, x.document.path ≠ []) :
    (∀ u, ¬Relation.TransGen (ofNodes nodes).Edge u u) ↔
      ∀ p, ¬Relation.TransGen (Imports nodes) p p := by
  constructor
  · intro hacyclic p hcycle
    exact hacyclic _ (hcycle.lift _ fun _ _ h =>
      edge_of_imports hdistinct hnamed h)
  · intro hacyclic u hcycle
    exact hacyclic _ (hcycle.lift _ fun _ _ h => imports_of_edge h)

theorem nodup_loaded_map_name (nodes : List GraphNode) :
    ((ofNodes nodes).loaded.map (ofNodes nodes).name).Nodup := by
  refine List.Nodup.map_on ?_ (ofNodes nodes).nodup_loaded
  intro u hu v hv hname
  obtain ⟨p, hp, -⟩ := mem_loaded_ofNodes_iff.1 hu
  obtain ⟨q, hq, -⟩ := mem_loaded_ofNodes_iff.1 hv
  rw [name_eq hp, name_eq hq] at hname
  exact eq_of_name_eq hp (hname ▸ hq)

/-- There is nothing in the order of emission that was not loaded. -/
theorem emitted_eq_map (nodes : List GraphNode) :
    emitted nodes = (ofNodes nodes).waves.emission.map
    (ofNodes nodes).name := by
  have hpresent : (ofNodes nodes).waves.emission.filter
      (ofNodes nodes).present =
      (ofNodes nodes).waves.emission := by
    rw [List.filter_eq_self]
    intro v hv
    exact present_of_mem_loaded (proper_build.emission_perm_loaded.mem_iff.1 hv)
  exact congrArg (List.map (ofNodes nodes).name) hpresent

theorem nodup_emitted (nodes : List GraphNode) : (emitted nodes).Nodup := by
  have hloaded : (ofNodes nodes).waves.emission.Perm (ofNodes nodes).loaded :=
    proper_build.emission_perm_loaded
  rw [emitted_eq_map, (hloaded.map _).nodup_iff]
  exact nodup_loaded_map_name nodes

theorem emission_map_name_perm
    (hdistinct : (paths nodes).Nodup)
    (hnamed : ∀ x ∈ nodes, x.document.path ≠ []) :
    ((ofNodes nodes).waves.emission.map (ofNodes nodes).name).Perm
      (paths nodes) := by
  have hloaded : (ofNodes nodes).waves.emission.Perm (ofNodes nodes).loaded :=
    proper_build.emission_perm_loaded
  refine (hloaded.map _).trans ?_
  rw [List.perm_ext_iff_of_nodup (nodup_loaded_map_name nodes) hdistinct]
  intro p
  rw [List.mem_map]
  constructor
  · rintro ⟨id, hid, rfl⟩
    obtain ⟨n, hn, hmem⟩ := mem_loaded_ofNodes_iff.1 hid
    rw [name_eq hn]
    exact hmem
  · intro hp
    have hname := getElem?_idxOf_ofNodes (ne_nil_of_mem_paths hnamed hp) hp
    exact ⟨_, mem_loaded_ofNodes_iff.2 ⟨p, hname, hp⟩, name_eq hname⟩

end Documents

/-- What taking the documents of a graph in waves has to come to. -/
structure EmittedInOrder (nodes : List GraphNode) (g : ImportGraph) : Prop where
  /-- There are no more waves than documents. -/
  ends : ∃ n ≤ nodes.length,
    (g.advance^[n] g.start).wave = [] ∧ g.sweep g.start = g.advance^[n] g.start
  /-- Every document is emitted once. -/
  perm : (g.waves.emission.map g.name).Perm (paths nodes)
  isCyclic_iff : g.waves.isCyclic = false ↔
    ∀ p, ¬Relation.TransGen (Imports nodes) p p
  /-- A document is emitted after the documents it imports. -/
  idxOf_lt : g.waves.isCyclic = false → ∀ p q, Imports nodes p q →
    (g.waves.emission.map g.name).idxOf q <
    (g.waves.emission.map g.name).idxOf p

/-- Whatever documents import, they are emitted in order. -/
theorem emittedInOrder_ofNodes
    {nodes : List GraphNode} (hdistinct : (paths nodes).Nodup)
    (hnamed : ∀ x ∈ nodes, x.document.path ≠ []) :
    EmittedInOrder nodes (ofNodes nodes) := by
  have hproper : (ofNodes nodes).Proper := proper_build
  have hperm := emission_map_name_perm hdistinct hnamed
  constructor
  case ends =>
    obtain ⟨n, hiterate, hend, hlength⟩ :=
      (ofNodes nodes).exists_sweep_eq_iterate (ofNodes nodes).start
    refine ⟨n, ?_, hiterate ▸ hend, hiterate⟩
    have hrounds : n ≤
      ((ofNodes nodes).sweep (ofNodes nodes).start).order.length :=
      Nat.le_trans (Nat.le_add_left n _) hlength
    have htaken := hproper.swept_sweep.order_append_rest_perm.length_eq
    have hloaded := hproper.emission_perm_loaded.length_eq
    have hnodes := hperm.length_eq
    rw [List.length_append] at htaken
    rw [List.length_map, paths, List.length_map] at hnodes
    omega
  case perm => exact hperm
  case isCyclic_iff =>
    rw [hproper.isCyclic_eq_false_iff, forall_not_transGen_iff hdistinct hnamed]
  case idxOf_lt =>
    intro hacyclic p q himports
    have hmem : ∀ {n}, n ∈ paths nodes →
      n ∈ (ofNodes nodes).waves.emission.map (ofNodes nodes).name :=
      fun hn => hperm.mem_iff.2 hn
    have hordered :
        ((ofNodes nodes).waves.emission.map (ofNodes nodes).name).Pairwise
        fun a b => ¬Imports nodes a b := by
      rw [List.pairwise_map]
      refine (hproper.pairwise_emission hacyclic).imp_of_mem ?_
      intro u v hu hv hnone himports
      have hedge := edge_of_imports hdistinct hnamed himports
      rw [idxOf_name (hproper.emission_perm_loaded.mem_iff.1 hu),
        idxOf_name (hproper.emission_perm_loaded.mem_iff.1 hv)] at hedge
      rw [hedge.2.2] at hnone
      cases hnone
    have hp : p ∈ paths nodes := by
      obtain ⟨-, -, x, hx, rfl, -⟩ := himports
      exact List.mem_map_of_mem hx
    exact idxOf_lt_idxOf hordered (hmem himports.2.1)
      (hmem hp) himports.1.symm himports

/-- Documents that import each other over two steps, a document that is not
there, one document twice, and themselves. -/
def sample : List GraphNode :=
  let imports (names : List Text) : List ImportTarget := names.map fun n =>
    { path := n }
  [{ document := { path := "app.xml",
                   imports :=
                     imports ["shell.xml", "wayland.xml", "app.xml"] } },
    { document := { path := "shell.xml",
                    imports :=
                      imports ["wayland.xml", "gone.xml", "wayland.xml"] } },
    { document := { path := "wayland.xml" } }]

theorem sample_emittedInOrder :
    (ofNodes sample).waves.isCyclic = false ∧
      (ofNodes sample).waves.emission.map (ofNodes sample).name =
        ["wayland.xml", "shell.xml", "app.xml"].map Text.ofString ∧
      EmittedInOrder sample (ofNodes sample) :=
  ⟨by cbv, by cbv,
    emittedInOrder_ofNodes (by decide +kernel) (by decide +kernel)⟩

end ImportGraph

end ProtocolCorpus
