import ProtocolCorpus.Proofs.Emission

/-!
# Cycles of imports

What is in no wave is a document on a cycle or one that a cycle leads to; such a
document is called entangled. Warnings and the order of emission only know this
distinction. So all entangled documents are warned, also those that lie on no
cycle, and the order of emission puts what a document imports in front of it
where that is not entangled. Nothing is assumed of the documents: several may
have one name, of which the first is loaded, and documents without a name are in
no graph.
-/

namespace ProtocolCorpus

namespace ImportGraph

/-- A document lies on a cycle of imports. -/
def OnCycle (nodes : List GraphNode) (p : Text) : Prop :=
  Relation.TransGen (Needs nodes) p p

/-- A document lies on a cycle, or a document on a cycle leads to it. -/
def Entangled (nodes : List GraphNode) (p : Text) : Prop :=
  ∃ c, OnCycle nodes c ∧ Relation.ReflTransGen (Needs nodes) c p

def warned (g : ImportGraph) : List GraphNode :=
  (g.waves.left.filterMap g.node?).filter fun x => !x.silent

/-! ## Entangled documents -/

section Entangled

variable {nodes : List GraphNode}

theorem OnCycle.entangled {p : Text} (h : OnCycle nodes p) :
    Entangled nodes p :=
  ⟨p, h, .refl⟩

theorem Entangled.of_reflTransGen
    {p q : Text} (h : Entangled nodes p)
    (hleads : Relation.ReflTransGen (Needs nodes) p q) :
    Entangled nodes q := by
  obtain ⟨c, hcycle, hp⟩ := h
  exact ⟨c, hcycle, hp.trans hleads⟩

theorem OnCycle.isSome {p : Text} (h : OnCycle nodes p) :
    (nodeNamed? nodes p).isSome = true := by
  obtain ⟨_, -, hneeds⟩ := Relation.TransGen.tail'_iff.1 h
  exact hneeds.2.1

theorem mem_left_iff_entangled {id : Nat} (hid : id ∈ (ofNodes nodes).loaded) :
    id ∈ (ofNodes nodes).waves.left ↔
    Entangled nodes ((ofNodes nodes).name id) := by
  have hproper := proper_ofNodes nodes
  rw [hproper.mem_left_iff]
  constructor
  · rintro ⟨c, hcycle, hleads⟩
    have hcycle' : OnCycle nodes ((ofNodes nodes).name c) :=
      hcycle.lift (ofNodes nodes).name fun _ _ => needs_of_edge
    have hleads' : Relation.ReflTransGen (Needs nodes) ((ofNodes nodes).name c)
        ((ofNodes nodes).name id) :=
      hleads.lift (ofNodes nodes).name fun _ _ => needs_of_edge
    exact ⟨_, hcycle', hleads'⟩
  · rintro ⟨c, hcycle, hleads⟩
    have hcycle' : Relation.TransGen (ofNodes nodes).Edge
        ((ofNodes nodes).names.idxOf c)
        ((ofNodes nodes).names.idxOf c) :=
      hcycle.lift (ofNodes nodes).names.idxOf fun _ _ => edge_of_needs
    have hleads' : Relation.ReflTransGen (ofNodes nodes).Edge
        ((ofNodes nodes).names.idxOf c)
        ((ofNodes nodes).names.idxOf ((ofNodes nodes).name id)) :=
      hleads.lift (ofNodes nodes).names.idxOf fun _ _ => edge_of_needs
    rw [idxOf_name hid] at hleads'
    exact ⟨_, hcycle', hleads'⟩

theorem idxOf_mem_left_iff {p : Text}
    (hp : (nodeNamed? nodes p).isSome = true) :
    (ofNodes nodes).names.idxOf p ∈ (ofNodes nodes).waves.left ↔
      Entangled nodes p := by
  rw [mem_left_iff_entangled (idxOf_mem_loaded hp), name_idxOf hp]

/-- The graph is found to be cyclic if and only if some document lies on a
cycle. -/
theorem isCyclic_ofNodes_eq_false_iff :
    (ofNodes nodes).waves.isCyclic = false ↔ ∀ p, ¬OnCycle nodes p := by
  rw [(proper_ofNodes nodes).isCyclic_eq_false_iff]
  constructor
  · intro hacyclic p hcycle
    exact hacyclic _ (hcycle.lift (ofNodes nodes).names.idxOf fun _ _ =>
      edge_of_needs)
  · intro hacyclic u hcycle
    exact hacyclic _ (hcycle.lift (ofNodes nodes).name fun _ _ => needs_of_edge)

end Entangled

/-! ## Warnings -/

section Warnings

variable {nodes : List GraphNode}

theorem cycleWarnings_eq_map (g : ImportGraph) :
    g.cycleWarnings g.waves =
      g.warned.map fun x =>
        cycleWarning (g.waves.left.map g.name) x.document := by
  rw [cycleWarnings, warned, List.filter_filterMap, List.map_filterMap]
  refine List.filterMap_congr fun id _ => ?_
  cases g.node? id with
  | none => rfl
  | some x => cases hsilent : x.silent with
    | false => simp [hsilent]
    | true => simp [hsilent]

theorem path_of_nodeNamed? {p : Text} {x : GraphNode}
    (h : nodeNamed? nodes p = some x) :
    x.document.path = p :=
  (mem_and_path_eq_of_slot (nodeNamed?_eq_some_iff.1 h).2).2

theorem mem_warned_iff {x : GraphNode} :
    x ∈ (ofNodes nodes).warned ↔
      nodeNamed? nodes x.document.path = some x ∧ x.silent = false ∧
        Entangled nodes x.document.path := by
  rw [warned, List.mem_filter, List.mem_filterMap, Bool.not_eq_true']
  constructor
  · rintro ⟨⟨id, hleft, hnode⟩, hreports⟩
    have hnamed := nodeNamed?_name hnode
    have hentangled :=
      (mem_left_iff_entangled (mem_loaded_iff_node?.2 ⟨x, hnode⟩)).1 hleft
    rw [path_of_nodeNamed? hnamed]
    exact ⟨hnamed, hreports, hentangled⟩
  · rintro ⟨hnamed, hreports, hentangled⟩
    refine ⟨⟨_, ?_, node?_idxOf hnamed⟩, hreports⟩
    exact (idxOf_mem_left_iff (Option.isSome_of_eq_some hnamed)).2 hentangled

theorem nodup_warned : (ofNodes nodes).warned.Nodup := by
  have hproper := proper_ofNodes nodes
  have hleft : (ofNodes nodes).waves.left.Nodup := by
    rw [hproper.left_eq_rest]
    exact (ofNodes nodes).nodup_loaded.filter _
  refine (hleft.filterMap ?_).filter _
  intro u v x hu hv
  have hunamed := path_of_nodeNamed? (nodeNamed?_name hu)
  have hvnamed := path_of_nodeNamed? (nodeNamed?_name hv)
  rw [← idxOf_name (mem_loaded_iff_node?.2 ⟨x, hu⟩), ← hunamed, hvnamed,
    idxOf_name (mem_loaded_iff_node?.2 ⟨x, hv⟩)]

end Warnings

/-- Every document that can be warned and is entangled is warned, once and in
the order of names. Whether a document is warned agrees with whether it lies on
a cycle exactly if no cycle merely leads to it. -/
theorem warned_iff_entangled (nodes : List GraphNode) :
    (ofNodes nodes).cycleWarnings (ofNodes nodes).waves =
        ((ofNodes nodes).warned.map fun x =>
          cycleWarning ((ofNodes nodes).waves.left.map (ofNodes nodes).name)
          x.document) ∧
      (ofNodes nodes).warned.Nodup ∧
      ∀ x, nodeNamed? nodes x.document.path = some x → x.silent = false →
        (x ∈ (ofNodes nodes).warned ↔ Entangled nodes x.document.path) ∧
          ((x ∈ (ofNodes nodes).warned ↔ OnCycle nodes x.document.path) ↔
            (Entangled nodes x.document.path →
            OnCycle nodes x.document.path)) := by
  refine ⟨cycleWarnings_eq_map _, nodup_warned, ?_⟩
  intro x hnamed hreports
  have hwarned : x ∈ (ofNodes nodes).warned ↔
      Entangled nodes x.document.path := by
    rw [mem_warned_iff]
    exact ⟨fun h => h.2.2, fun h => ⟨hnamed, hreports, h⟩⟩
  refine ⟨hwarned, ?_⟩
  rw [hwarned]
  exact ⟨fun hiff => hiff.1, fun himp => ⟨himp, OnCycle.entangled⟩⟩

/-- One document imports a cycle and a document apart from it, and the
cycle imports a document that is on no cycle. -/
def tangle : List GraphNode :=
  let imports (names : List Text) : List ImportTarget := names.map fun n =>
    { path := n }
  [{ document := { path := "app.xml",
                   imports := imports ["core.xml", "left.xml"] } },
    { document := { path := "core.xml" } },
    { document := { path := "leaf.xml" } },
    { document := { path := "left.xml",
                    imports := imports ["leaf.xml", "right.xml"] } },
    { document := { path := "right.xml", imports := imports ["left.xml"] } }]

theorem onCycle_tangle_left : OnCycle tangle "left.xml" := by
  have hthere : Needs tangle "left.xml" "right.xml" := by decide +kernel
  have hback : Needs tangle "right.xml" "left.xml" := by decide +kernel
  exact .tail (.single hthere) hback

theorem tangle_left_warned :
    nodeNamed? tangle tangle[3].document.path = some tangle[3] ∧
    tangle[3].silent = false ∧
      OnCycle tangle tangle[3].document.path ∧
      tangle[3] ∈ (ofNodes tangle).warned := by
  have hnamed : nodeNamed? tangle tangle[3].document.path = some tangle[3] := by
    decide +kernel
  have hwarned := ((warned_iff_entangled tangle).2.2 tangle[3] hnamed rfl).1
  exact ⟨hnamed, rfl, onCycle_tangle_left,
    hwarned.2 onCycle_tangle_left.entangled⟩

/-- A document that is on no cycle, for it imports nothing, is warned as well.
-/
theorem tangle_leaf_warned :
    nodeNamed? tangle "leaf.xml" = some tangle[2] ∧ tangle[2].silent = false ∧
      cycleWarning ((ofNodes tangle).waves.left.map (ofNodes tangle).name)
      tangle[2].document ∈
        (ofNodes tangle).cycleWarnings (ofNodes tangle).waves ∧
      ¬OnCycle tangle "leaf.xml" := by
  have hnamed : nodeNamed? tangle "leaf.xml" = some tangle[2] := by
    decide +kernel
  have hneeds : Needs tangle "left.xml" "leaf.xml" := by decide +kernel
  have hwarned : tangle[2] ∈ (ofNodes tangle).warned :=
    mem_warned_iff.2
      ⟨hnamed, rfl, "left.xml", onCycle_tangle_left, .single hneeds⟩
  refine ⟨hnamed, rfl, ?_, ?_⟩
  · rw [cycleWarnings_eq_map]
    exact List.mem_map_of_mem hwarned
  · intro hcycle
    obtain ⟨_, ⟨-, -, x, hx, himported⟩, -⟩ :=
      Relation.TransGen.head'_iff.1 hcycle
    rw [hnamed, Option.some.injEq] at hx
    rw [← hx] at himported
    cases himported

/-! ## Emission -/

section Numbers

variable {g : ImportGraph} {v u : Nat}

theorem Proper.pairwise_left (hg : g.Proper) :
    g.waves.left.Pairwise (· < ·) := by
  rw [hg.left_eq_rest]
  exact g.pairwise_loaded.filter _

theorem Proper.mem_order_iff (hg : g.Proper) :
    v ∈ g.waves.order ↔ v ∈ g.loaded ∧ v ∉ g.waves.left := by
  rw [hg.left_eq_rest, mem_rest_iff]
  constructor
  · intro hv
    exact ⟨hg.swept_sweep.order_subset hv, fun hrest => hrest.2 hv⟩
  · rintro ⟨hloaded, hrest⟩
    by_contra hv
    exact hrest ⟨hloaded, hv⟩

theorem idxOf_emission_of_mem_order (hv : v ∈ g.waves.order) :
    g.waves.emission.idxOf v = g.waves.order.reverse.idxOf v :=
  List.idxOf_append_of_mem (List.mem_reverse.2 hv)

theorem Proper.idxOf_emission_of_mem_left (hg : g.Proper)
    (hv : v ∈ g.waves.left) :
    g.waves.emission.idxOf v = g.waves.order.length + g.waves.left.idxOf v := by
  have horder : v ∉ g.waves.order.reverse := by
    rw [List.mem_reverse, hg.mem_order_iff]
    exact fun h => h.2 hv
  rw [Waves.emission, List.idxOf_append_of_notMem horder, List.length_reverse]

/-- What a document imports is emitted before it, unless it is left over. -/
theorem Proper.idxOf_emission_lt_of_edge (hg : g.Proper) (hedge : g.Edge u v)
    (hv : v ∉ g.waves.left) :
    g.waves.emission.idxOf v < g.waves.emission.idxOf u := by
  have hvorder : v ∈ g.waves.order := hg.mem_order_iff.2 ⟨hedge.2.1, hv⟩
  have huorder : u ∈ g.waves.order :=
    hg.swept_sweep.mem_order_of_edge hedge hvorder
  have hordered : g.waves.order.reverse.Pairwise fun a b => ¬g.Edge a b := by
    refine List.pairwise_reverse.2
      (hg.swept_sweep.ordered.imp fun hfalse hback => ?_)
    rw [hback.2.2] at hfalse
    cases hfalse
  rw [idxOf_emission_of_mem_order hvorder, idxOf_emission_of_mem_order huorder]
  exact idxOf_lt_idxOf (R := fun a b => g.Edge b a) hordered
    (List.mem_reverse.2 hvorder)
    (List.mem_reverse.2 huorder) (hg.edge_irrefl hedge).symm hedge

theorem Proper.idxOf_emission_lt_of_left (hg : g.Proper)
    (hu : u ∈ g.waves.order) (hv : v ∈ g.waves.left) :
    g.waves.emission.idxOf u < g.waves.emission.idxOf v := by
  have hlt : g.waves.order.reverse.idxOf u < g.waves.order.reverse.length :=
    List.idxOf_lt_length_of_mem (List.mem_reverse.2 hu)
  rw [List.length_reverse] at hlt
  rw [idxOf_emission_of_mem_order hu, hg.idxOf_emission_of_mem_left hv]
  omega

theorem Proper.idxOf_emission_lt_iff (hg : g.Proper) (hu : u ∈ g.waves.left)
    (hv : v ∈ g.waves.left) :
    g.waves.emission.idxOf u < g.waves.emission.idxOf v ↔ u < v := by
  have hordered : g.waves.left.Pairwise fun a b => ¬b < a :=
    hg.pairwise_left.imp fun hlt => Nat.not_lt.2 (Nat.le_of_lt hlt)
  have hmono : ∀ {a b}, a ∈ g.waves.left → b ∈ g.waves.left → a < b →
      g.waves.left.idxOf a < g.waves.left.idxOf b := fun ha hb hlt =>
    idxOf_lt_idxOf hordered ha hb (Nat.ne_of_lt hlt) hlt
  rw [hg.idxOf_emission_of_mem_left hu, hg.idxOf_emission_of_mem_left hv,
    Nat.add_lt_add_iff_left]
  constructor
  · intro hidx
    rcases Nat.lt_trichotomy u v with hlt | heq | hgt
    · exact hlt
    · rw [heq] at hidx
      exact absurd hidx (Nat.lt_irrefl _)
    · exact absurd (hmono hv hu hgt) (Nat.lt_asymm hidx)
  · exact hmono hu hv

end Numbers

section Names

variable {nodes : List GraphNode}

theorem idxOf_map_of_inj
    {α β : Type} [BEq α] [LawfulBEq α] [BEq β] [LawfulBEq β] {f : α → β} {a : α}
    {l : List α} (hinj : ∀ b ∈ l, f b = f a → b = a) :
    (l.map f).idxOf (f a) = l.idxOf a := by
  induction l with
  | nil => rfl
  | cons b l ih =>
    have ih' := ih fun c hc => hinj c (List.mem_cons_of_mem _ hc)
    by_cases hb : b = a
    · rw [hb, List.map_cons, List.idxOf_cons_self, List.idxOf_cons_self]
    · have hfb : f b ≠ f a := fun heq => hb (hinj b List.mem_cons_self heq)
      rw [List.map_cons, List.idxOf_cons_ne _ hfb, List.idxOf_cons_ne _ hb, ih']

theorem mem_emitted_iff {p : Text} :
    p ∈ emitted nodes ↔ (nodeNamed? nodes p).isSome = true := by
  have hproper := proper_ofNodes nodes
  rw [emitted_eq_map, List.mem_map]
  constructor
  · rintro ⟨id, hid, rfl⟩
    obtain ⟨x, hx⟩ :=
      mem_loaded_iff_node?.1 (hproper.emission_perm_loaded.mem_iff.1 hid)
    exact Option.isSome_of_eq_some (nodeNamed?_name hx)
  · intro hp
    exact ⟨_, hproper.emission_perm_loaded.mem_iff.2 (idxOf_mem_loaded hp),
      name_idxOf hp⟩

theorem idxOf_emitted {p : Text} (hp : (nodeNamed? nodes p).isSome = true) :
    (emitted nodes).idxOf p = (ofNodes nodes).waves.emission.idxOf
    ((ofNodes nodes).names.idxOf p) := by
  have hproper := proper_ofNodes nodes
  have hinj : ∀ id ∈ (ofNodes nodes).waves.emission,
      (ofNodes nodes).name id =
      (ofNodes nodes).name ((ofNodes nodes).names.idxOf p) →
        id = (ofNodes nodes).names.idxOf p := by
    intro id hid heq
    rw [name_idxOf hp] at heq
    rw [← heq, idxOf_name (hproper.emission_perm_loaded.mem_iff.1 hid)]
  have hidx := idxOf_map_of_inj hinj
  rw [name_idxOf hp] at hidx
  rw [emitted_eq_map]
  exact hidx

theorem idxOf_lt_idxOf_iff_before
    {p q : Text} (hp : (nodeNamed? nodes p).isSome = true)
    (hq : (nodeNamed? nodes q).isSome = true) :
    (ofNodes nodes).names.idxOf p < (ofNodes nodes).names.idxOf q ↔
      Text.before p q = true := by
  have hmem : ∀ {n}, (nodeNamed? nodes n).isSome = true →
      n ∈ (ofNodes nodes).names := by
    intro n hn
    obtain ⟨hne, hpath⟩ := nodeNamed?_isSome_iff.1 hn
    exact List.mem_of_getElem? (getElem?_idxOf_ofNodes hne hpath)
  have hordered : (ofNodes nodes).names.Pairwise fun a b => ¬Text.before b a =
      true := by
    refine (pairwise_nameAll _).imp fun hab hba => ?_
    obtain ⟨hle, hne⟩ := Text.before_iff_le_and_ne.1 hab
    exact hne (Text.le_antisymm hle (Text.before_iff_le_and_ne.1 hba).1)
  constructor
  · intro hlt
    have hpairs :=
      List.pairwise_iff_getElem.1
        (pairwise_nameAll (nodes.map GraphNode.document)) _ _
      (List.idxOf_lt_length_of_mem (hmem hp))
        (List.idxOf_lt_length_of_mem (hmem hq)) hlt
    rw [List.getElem_idxOf, List.getElem_idxOf] at hpairs
    exact hpairs
  · intro hbefore
    exact idxOf_lt_idxOf hordered (hmem hp) (hmem hq)
      (Text.before_iff_le_and_ne.1 hbefore).2 hbefore

end Names

/-- What the order of emission owes to the imports, whether they have cycles or
not. -/
structure EmittedAroundCycles (nodes : List GraphNode) : Prop where
  mem_iff : ∀ p, p ∈ emitted nodes ↔ (nodeNamed? nodes p).isSome = true
  nodup : (emitted nodes).Nodup
  /-- A document that no cycle leads to is emitted before the documents
  that import it. -/
  dependency_first : ∀ p q, Needs nodes p q → ¬Entangled nodes q →
    (emitted nodes).idxOf q < (emitted nodes).idxOf p
  /-- The documents on cycles follow those that no cycle leads to. -/
  cyclic_last : ∀ p q, (nodeNamed? nodes p).isSome = true → ¬Entangled nodes p →
    OnCycle nodes q →
    (emitted nodes).idxOf p < (emitted nodes).idxOf q
  /-- The documents on cycles stand in the order of their names. -/
  cyclic_by_name : ∀ p q, OnCycle nodes p → OnCycle nodes q →
    ((emitted nodes).idxOf p < (emitted nodes).idxOf q ↔ Text.before p q = true)

/-- Documents are emitted in the order of their imports around cycles. -/
theorem emittedAroundCycles (nodes : List GraphNode) :
    EmittedAroundCycles nodes := by
  have hproper := proper_ofNodes nodes
  constructor
  case mem_iff => exact fun p => mem_emitted_iff
  case nodup => exact nodup_emitted nodes
  case dependency_first =>
    intro p q hneeds hclear
    obtain ⟨x, hx, -⟩ := hneeds.2.2
    rw [idxOf_emitted hneeds.2.1, idxOf_emitted (Option.isSome_of_eq_some hx)]
    refine hproper.idxOf_emission_lt_of_edge (edge_of_needs hneeds) ?_
    rw [idxOf_mem_left_iff hneeds.2.1]
    exact hclear
  case cyclic_last =>
    intro p q hp hclear hcycle
    have horder : (ofNodes nodes).names.idxOf p ∈
        (ofNodes nodes).waves.order := by
      rw [hproper.mem_order_iff, idxOf_mem_left_iff hp]
      exact ⟨idxOf_mem_loaded hp, hclear⟩
    rw [idxOf_emitted hp, idxOf_emitted hcycle.isSome]
    exact hproper.idxOf_emission_lt_of_left horder
      ((idxOf_mem_left_iff hcycle.isSome).2 hcycle.entangled)
  case cyclic_by_name =>
    intro p q hp hq
    rw [idxOf_emitted hp.isSome, idxOf_emitted hq.isSome,
      hproper.idxOf_emission_lt_iff
      ((idxOf_mem_left_iff hp.isSome).2 hp.entangled)
        ((idxOf_mem_left_iff hq.isSome).2 hq.entangled),
      idxOf_lt_idxOf_iff_before hp.isSome hq.isSome]

set_option maxRecDepth 20000 in
theorem names_tangle :
    (ofNodes tangle).names =
      ["app.xml", "core.xml", "leaf.xml", "left.xml", "right.xml"].map
      Text.ofString := by
  cbv

theorem ofNodes_tangle :
    ofNodes tangle =
      build (["app.xml", "core.xml", "leaf.xml", "left.xml", "right.xml"].map
      Text.ofString) tangle :=
  congrArg (build · tangle) names_tangle

theorem waves_tangle :
    (ofNodes tangle).waves =
      { batches := [[0], [1]], order := [0, 1], isCyclic := true,
        left := [2, 3, 4] } := by
  have hstart : (ofNodes tangle).start =
      { counts := [0, 1, 1, 2, 1], wave := [0] } := by
    rw [ofNodes_tangle]
    decide +kernel
  have hfirst :
      (ofNodes tangle).advance { counts := [0, 1, 1, 2, 1], wave := [0] } =
      { counts := [0, 0, 1, 1, 1], wave := [1], batches := [[0]],
        order := [0] } := by
    rw [ofNodes_tangle]
    cbv
  have hsecond : (ofNodes tangle).advance
      { counts := [0, 0, 1, 1, 1], wave := [1], batches := [[0]],
        order := [0] } =
      { counts := [0, 0, 1, 1, 1], wave := [], batches := [[0], [1]],
        order := [0, 1] } := by
    rw [ofNodes_tangle]
    cbv
  have hsweep : (ofNodes tangle).sweep (ofNodes tangle).start =
      { counts := [0, 0, 1, 1, 1], wave := [], batches := [[0], [1]],
        order := [0, 1] } := by
    rw [hstart, sweep, dif_neg (by decide), hfirst, sweep, dif_neg (by decide),
      hsecond, sweep, dif_pos rfl]
  rw [waves, hsweep, ofNodes_tangle]
  decide +kernel

theorem not_entangled_tangle_app : ¬Entangled tangle "app.xml" := by
  rw [← idxOf_mem_left_iff (by decide +kernel), waves_tangle, names_tangle]
  decide +kernel

/-- A document is emitted before a document on a cycle that it imports. -/
theorem tangle_app_first :
    (ofNodes tangle).waves.isCyclic = true ∧ Needs tangle "app.xml" "left.xml" ∧
      ¬Relation.ReflTransGen (Needs tangle) "left.xml" "app.xml" ∧
      (emitted tangle).idxOf ("app.xml" : Text) <
      (emitted tangle).idxOf ("left.xml" : Text) := by
  have hneeds : Needs tangle "app.xml" "left.xml" := by decide +kernel
  refine ⟨by rw [waves_tangle], hneeds, ?_, ?_⟩
  · intro hleads
    exact not_entangled_tangle_app
      (onCycle_tangle_left.entangled.of_reflTransGen hleads)
  · rw [emitted_eq_map, waves_tangle, ofNodes_tangle]
    decide +kernel

end ImportGraph

end ProtocolCorpus
