import ProtocolCorpus.ImportGraph.Digests
import ProtocolCorpus.Proofs.Cycles
import ProtocolCorpus.Proofs.Digest

/-!
# What the digest of a document covers

The digests of two corpora with the same imports are compared document by
document. The digest of a document covers its content and whatever is reached
from it over imports that are not entangled in a cycle, and nothing else.
Without cycles that is all the document depends on. An import that is entangled
is left out: its content can change and the digest of the importer stays as it
is.
-/

namespace ProtocolCorpus

namespace ImportGraph

/-! ## Digests as an equation -/

def digest (g : ImportGraph) (id : Nat) : Text :=
  digestOf (g.digests g.waves) id

/-- The text that is digested for a document, from the digests that are known.
-/
def digestedText (g : ImportGraph) (known : List (Nat × Text))
    (id : Nat) : Text :=
  g.contentDigest id ++
    ((g.targets id).filterMap fun v => known.lookup v).flatten

def digestedTexts (g : ImportGraph) : List Text :=
  g.loaded.map (g.digestedText (g.orderedDigests g.waves))

/-- The digests of a row of documents, each from those behind it. -/
def digestsFrom (g : ImportGraph) (ids : List Nat) : List (Nat × Text) :=
  ids.foldr (fun id known => g.addDigest known id) []

/-- The imports of a document with digests that its own digest covers. -/
def covered (g : ImportGraph) (id : Nat) : List Nat :=
  (g.targets id).filter fun v => g.waves.order.contains v

section Equation

variable {g : ImportGraph} {v id : Nat} {d : Text}

theorem orderedDigests_eq (g : ImportGraph) (w : Waves) :
    g.orderedDigests w = g.digestsFrom w.order :=
  List.foldl_reverse

theorem digestsFrom_cons (g : ImportGraph) (id : Nat) (ids : List Nat) :
    g.digestsFrom (id :: ids) =
      (id, Digest.sha256 (g.digestedText (g.digestsFrom ids) id)) ::
      g.digestsFrom ids :=
  rfl

theorem lookup_cons_of_ne {known : List (Nat × Text)} {a : Nat} (hne : v ≠ a) :
    List.lookup v ((a, d) :: known) = known.lookup v := by
  rw [List.lookup_cons, beq_false_of_ne hne]

theorem digestedText_cons {known : List (Nat × Text)} {a : Nat}
    (ha : a ∉ g.targets id) :
    g.digestedText ((a, d) :: known) id = g.digestedText known id := by
  have hlookup :
      (g.targets id).filterMap (fun v => List.lookup v ((a, d) :: known)) =
      (g.targets id).filterMap fun v => known.lookup v := by
    refine List.filterMap_congr fun v hv => lookup_cons_of_ne ?_
    rintro rfl
    exact ha hv
  rw [digestedText, digestedText, hlookup]

theorem lookup_digestsFrom_of_not_mem {ids : List Nat} (hv : v ∉ ids) :
    (g.digestsFrom ids).lookup v = none := by
  induction ids with
  | nil => rfl
  | cons a ids ih =>
    rw [digestsFrom_cons, lookup_cons_of_ne (List.ne_of_not_mem_cons hv),
      ih (List.not_mem_of_not_mem_cons hv)]

/-- Where importers stand before what they import, the digests that come later
change nothing. -/
theorem Proper.lookup_digestsFrom (hg : g.Proper) {ids : List Nat}
    (hordered : ids.Pairwise fun u v => g.imports v u = false)
    (hid : id ∈ ids) :
    (g.digestsFrom ids).lookup id =
      some (Digest.sha256 (g.digestedText (g.digestsFrom ids) id)) := by
  induction ids with
  | nil => cases hid
  | cons a ids ih =>
    rw [digestsFrom_cons]
    by_cases hne : id = a
    · rw [hne, List.lookup_cons_self, digestedText_cons (hg.not_mem_targets a)]
    · have hmem : id ∈ ids := List.mem_of_ne_of_mem hne hid
      have hnone : a ∉ g.targets id := by
        intro htarget
        have hfalse := List.rel_of_pairwise_cons hordered hmem
        rw [imports_iff.2 htarget] at hfalse
        cases hfalse
      rw [lookup_cons_of_ne hne, digestedText_cons hnone, ih hordered.tail hmem]

theorem Proper.mem_covered_iff (hg : g.Proper) {u : Nat} :
    v ∈ g.covered u ↔ g.Edge u v ∧ v ∉ g.waves.left := by
  rw [covered, List.mem_filter, List.contains_iff_mem, hg.mem_order_iff]
  constructor
  · rintro ⟨htarget, hloaded, hleft⟩
    have himports := imports_iff.2 htarget
    exact ⟨⟨hg.mem_loaded_of_imports himports, hloaded, himports⟩, hleft⟩
  · rintro ⟨hedge, hleft⟩
    exact ⟨imports_iff.1 hedge.2.2, hedge.2.1, hleft⟩

/-- What is left over imports nothing that was taken. -/
theorem Proper.covered_eq_nil (hg : g.Proper) (hid : id ∈ g.waves.left) :
    g.covered id = [] := by
  rw [List.eq_nil_iff_forall_not_mem]
  intro v hv
  obtain ⟨hedge, hleft⟩ := hg.mem_covered_iff.1 hv
  have horder : v ∈ g.waves.order := hg.mem_order_iff.2 ⟨hedge.2.1, hleft⟩
  exact (hg.mem_order_iff.1 (hg.swept_sweep.mem_order_of_edge hedge horder)).2
    hid

theorem Proper.lookup_of_mem_order (hg : g.Proper) (hv : v ∈ g.waves.order) :
    (g.orderedDigests g.waves).lookup v =
      some (Digest.sha256 (g.digestedText (g.orderedDigests g.waves) v)) := by
  have hordered : g.waves.order.Pairwise fun u v => g.imports v u = false :=
    hg.swept_sweep.ordered
  rw [orderedDigests_eq]
  exact hg.lookup_digestsFrom hordered hv

theorem digest_of_lookup (h : (g.orderedDigests g.waves).lookup v = some d) :
    g.digest v = d := by
  rw [digest, digestOf, digests, List.lookup_append, h]
  rfl

theorem Proper.lookup_orderedDigests (hg : g.Proper) (v : Nat) :
    (g.orderedDigests g.waves).lookup v =
      if g.waves.order.contains v then some (g.digest v) else none := by
  split
  next hv =>
    have hlookup := hg.lookup_of_mem_order (List.contains_iff_mem.1 hv)
    rw [hlookup, digest_of_lookup hlookup]
  next hv =>
    rw [orderedDigests_eq]
    exact lookup_digestsFrom_of_not_mem fun hmem =>
      hv (List.contains_iff_mem.2 hmem)

theorem Proper.digestedText_eq (hg : g.Proper) (id : Nat) :
    g.digestedText (g.orderedDigests g.waves) id =
      g.contentDigest id ++ ((g.covered id).map g.digest).flatten := by
  have hlookup :
      ((g.targets id).filterMap fun v => (g.orderedDigests g.waves).lookup v) =
      (g.covered id).map g.digest := by
    rw [covered, ← List.filterMap_eq_map, List.filterMap_filter]
    refine List.filterMap_congr fun v _ => ?_
    rw [hg.lookup_orderedDigests]
    rfl
  rw [digestedText, hlookup]

/-- The digest of a document is that of its content and of the digests it
covers. -/
theorem Proper.digest_eq (hg : g.Proper) (hid : id ∈ g.loaded) :
    g.digest id =
    Digest.sha256 (g.digestedText (g.orderedDigests g.waves) id) := by
  by_cases hleft : id ∈ g.waves.left
  · have horder : id ∉ g.waves.order := fun h => (hg.mem_order_iff.1 h).2 hleft
    have hnone : (g.orderedDigests g.waves).lookup id = none := by
      rw [orderedDigests_eq, lookup_digestsFrom_of_not_mem horder]
    rw [hg.digestedText_eq, hg.covered_eq_nil hleft, digest, digestOf, digests,
      List.lookup_append, hnone, Option.none_or, List.lookup_graph _ hleft]
    rfl
  · exact digest_of_lookup
      (hg.lookup_of_mem_order (hg.mem_order_iff.2 ⟨hid, hleft⟩))

end Equation

/-! ## Graphs of one shape -/

/-- Two graphs have the same names, the same loaded documents and the same
edges. -/
structure SameShape (g g' : ImportGraph) : Prop where
  names_eq : g.names = g'.names
  edges_eq : g.edges = g'.edges
  present_eq : ∀ id, g.present id = g'.present id

section Shape

variable {g g' : ImportGraph}

theorem SameShape.symm (h : SameShape g g') : SameShape g' g :=
  ⟨h.names_eq.symm, h.edges_eq.symm, fun id => (h.present_eq id).symm⟩

theorem SameShape.trans {g'' : ImportGraph} (h : SameShape g g')
    (h' : SameShape g' g'') :
    SameShape g g'' :=
  ⟨h.names_eq.trans h'.names_eq, h.edges_eq.trans h'.edges_eq,
    fun id => (h.present_eq id).trans (h'.present_eq id)⟩

theorem SameShape.targets_eq (h : SameShape g g') : g.targets = g'.targets := by
  funext id
  rw [targets, targets, h.edges_eq]

theorem SameShape.loaded_eq (h : SameShape g g') : g.loaded = g'.loaded := by
  rw [loaded, loaded, ids, ids, h.names_eq]
  exact List.filter_congr fun id _ => h.present_eq id

theorem SameShape.advance_eq (h : SameShape g g') : g.advance = g'.advance := by
  have hlower : g.lower = g'.lower := by
    funext t v
    rw [lower, lower, h.present_eq v]
  have hrelease : g.release = g'.release := by
    funext t u
    rw [release, release, h.targets_eq, hlower]
  funext s
  rw [advance, advance, tally, tally, hrelease]

theorem SameShape.sweep_eq (h : SameShape g g') (s : Sweep) : g.sweep s =
    g'.sweep s := by
  induction s using sweep.induct g with
  | case1 s hwave => rw [sweep, dif_pos hwave, sweep, dif_pos hwave]
  | case2 s hwave ih =>
    rw [sweep, dif_neg hwave, ih]
    nth_rewrite 2 [sweep]
    rw [dif_neg hwave, h.advance_eq]

theorem SameShape.start_eq (h : SameShape g g') : g.start = g'.start := by
  have hindegree : g.indegree = g'.indegree := by
    funext id
    have himports : ∀ u, g.imports u id = g'.imports u id := by
      intro u
      rw [imports, imports, h.targets_eq]
    simp only [indegree, ids, h.present_eq id, h.names_eq, himports]
  rw [start, start, ids, ids, h.names_eq, h.loaded_eq, hindegree]

/-- The waves depend on the shape of a graph only. -/
theorem SameShape.waves_eq (h : SameShape g g') : g.waves = g'.waves := by
  rw [waves, waves, h.start_eq, h.sweep_eq, h.loaded_eq]

theorem SameShape.covered_eq (h : SameShape g g') : g.covered = g'.covered := by
  funext id
  rw [covered, covered, h.targets_eq, h.waves_eq]

end Shape

/-! ## Two assignments of contents -/

section Compare

variable {g g' : ImportGraph}

theorem Proper.length_digest_of_mem_covered
    (hg : g.Proper) {u : Nat} {d : Text} (hd : d ∈ (g.covered u).map g.digest) :
    d.length = 32 := by
  obtain ⟨v, hv, rfl⟩ := List.mem_map.1 hd
  rw [hg.digest_eq (hg.mem_covered_iff.1 hv).1.2.1, Digest.length_sha256]

/-- The digests of a document agree if its contents and the digests that are
covered do. -/
theorem Proper.digest_eq_digest_iff
    (hg : g.Proper) (hg' : g'.Proper) (hshape : SameShape g g')
    (hcontent : ∀ id ∈ g.loaded, (g.contentDigest id).length = 32)
    (hcontent' : ∀ id ∈ g.loaded, (g'.contentDigest id).length = 32)
    (hfree : Digest.CollisionFree (g.digestedTexts ++ g'.digestedTexts))
    {id : Nat} (hid : id ∈ g.loaded) :
    g.digest id = g'.digest id ↔
      g.contentDigest id = g'.contentDigest id ∧
      ∀ v ∈ g.covered id, g.digest v = g'.digest v := by
  have hid' : id ∈ g'.loaded := hshape.loaded_eq ▸ hid
  have htext : g.digestedText (g.orderedDigests g.waves) id ∈
    g.digestedTexts ++ g'.digestedTexts :=
    List.mem_append_left _ (List.mem_map_of_mem hid)
  have htext' : g'.digestedText (g'.orderedDigests g'.waves) id ∈
    g.digestedTexts ++ g'.digestedTexts :=
    List.mem_append_right _ (List.mem_map_of_mem hid')
  have hdigest : g.digest id = g'.digest id ↔
      g.digestedText (g.orderedDigests g.waves) id =
      g'.digestedText (g'.orderedDigests g'.waves) id := by
    rw [hg.digest_eq hid, hg'.digest_eq hid']
    exact ⟨hfree _ htext _ htext', congrArg _⟩
  rw [hdigest, hg.digestedText_eq, hg'.digestedText_eq,
    Digest.append_flatten_inj (hcontent id hid) (hcontent' id hid)
      (fun d => hg.length_digest_of_mem_covered)
      (fun d => hg'.length_digest_of_mem_covered),
    ← hshape.covered_eq, List.map_inj_left]

/-- The digests of a document agree if all contents do that are reached over
what is covered. -/
theorem Proper.digest_eq_iff_contentDigest_eq
    (hg : g.Proper) (hg' : g'.Proper) (hshape : SameShape g g')
    (hcontent : ∀ id ∈ g.loaded, (g.contentDigest id).length = 32)
    (hcontent' : ∀ id ∈ g.loaded, (g'.contentDigest id).length = 32)
    (hfree : Digest.CollisionFree (g.digestedTexts ++ g'.digestedTexts))
    {id : Nat} (hid : id ∈ g.loaded) :
    g.digest id = g'.digest id ↔
      ∀ v, Relation.ReflTransGen (fun u v => v ∈ g.covered u) id v →
        g.contentDigest v = g'.contentDigest v := by
  -- What a document covers stands behind it in the order of the waves, so the
  -- way to the end gets shorter.
  induction hn : g.waves.order.length - g.waves.order.idxOf id
    using Nat.strong_induction_on
    generalizing id with
  | _ n ih =>
    have hcovered : ∀ v ∈ g.covered id, (g.digest v = g'.digest v ↔
        ∀ w, Relation.ReflTransGen (fun u v => v ∈ g.covered u) v w →
          g.contentDigest w = g'.contentDigest w) := by
      intro v hv
      obtain ⟨hedge, hleft⟩ := hg.mem_covered_iff.1 hv
      have horder : v ∈ g.waves.order := hg.mem_order_iff.2 ⟨hedge.2.1, hleft⟩
      have hidx : g.waves.order.idxOf id < g.waves.order.idxOf v :=
        hg.swept_sweep.idxOf_lt_of_edge hg hedge horder
      have hlt : g.waves.order.idxOf v < g.waves.order.length :=
        List.idxOf_lt_length_of_mem horder
      exact ih _ (by omega) hedge.2.1 rfl
    rw [hg.digest_eq_digest_iff hg' hshape hcontent hcontent' hfree hid]
    constructor
    · rintro ⟨hself, hall⟩ w hw
      rcases hw.cases_head with rfl | ⟨v, hv, hvw⟩
      · exact hself
      · exact (hcovered v hv).1 (hall v hv) w hvw
    · intro hall
      refine ⟨hall id .refl, fun v hv => (hcovered v hv).2 fun w hw => ?_⟩
      exact hall w (.head hv hw)

end Compare

/-! ## Contents by name -/

/-- The document with the content that belongs to its name. -/
def withContent (content : Text → Digest.Block) (x : GraphNode) : GraphNode :=
  { x with document := { x.document with
      contentDigest := (content x.document.path).1 } }

def withContents (content : Text → Digest.Block) (nodes : List GraphNode) :
    List GraphNode :=
  nodes.map (withContent content)

def documentDigest (nodes : List GraphNode) (p : Text) : Text :=
  (ofNodes nodes).digest ((ofNodes nodes).names.idxOf p)

section Contents

variable {nodes : List GraphNode} {content content' : Text → Digest.Block}

theorem slot_withContents (p : Text) :
    slot (withContents content nodes) p =
    (slot nodes p).map (withContent content) :=
  List.find?_map

theorem nodeNamed?_withContents (p : Text) :
    nodeNamed? (withContents content nodes) p =
    (nodeNamed? nodes p).map (withContent content) := by
  rw [nodeNamed?, nodeNamed?, slot_withContents]
  split
  next => rfl
  next => rfl

theorem names_withContents : (ofNodes (withContents content nodes)).names =
    (ofNodes nodes).names := by
  simp only [ofNodes, build, nameAll, withContents, List.map_map,
    List.flatMap_map]
  rfl

theorem node?_withContents (id : Nat) :
    (ofNodes (withContents content nodes)).node? id =
      ((ofNodes nodes).node? id).map (withContent content) := by
  rw [node?_ofNodes, node?_ofNodes, names_withContents, Option.map_bind]
  exact Option.bind_congr fun p _ => nodeNamed?_withContents p

theorem sameShape_withContents :
    SameShape (ofNodes (withContents content nodes)) (ofNodes nodes) := by
  constructor
  case names_eq => exact names_withContents
  case edges_eq =>
    have hnames :
        nameAll ((withContents content nodes).map GraphNode.document) =
        nameAll (nodes.map GraphNode.document) := names_withContents
    simp only [ofNodes, build, hnames]
    refine List.map_congr_left fun p _ => ?_
    rw [slot_withContents]
    cases slot nodes p.1 with
    | none => rfl
    | some x => rfl
  case present_eq =>
    intro id
    rw [present, present, node?_withContents, Option.isSome_map]

theorem contentDigest_withContents {id : Nat}
    (hid : id ∈ (ofNodes nodes).loaded) :
    (ofNodes (withContents content nodes)).contentDigest id =
      (content ((ofNodes nodes).name id)).1 := by
  obtain ⟨x, hx⟩ := mem_loaded_iff_node?.1 hid
  rw [contentDigest, node?_withContents, hx,
    ← path_of_nodeNamed? (nodeNamed?_name hx)]
  rfl

theorem digestedTexts_withContents
    {names : List Text} {w : Waves} (hnames : (ofNodes nodes).names = names)
    (hwaves : (ofNodes nodes).waves = w) :
    (ofNodes (withContents content nodes)).digestedTexts =
      (build names (withContents content nodes)).loaded.map
        ((build names (withContents content nodes)).digestedText
          ((build names (withContents content nodes)).orderedDigests w)) := by
  have hgraph : ofNodes (withContents content nodes) =
    build names (withContents content nodes) :=
    congrArg (build · (withContents content nodes))
      (names_withContents.trans hnames)
  rw [digestedTexts, sameShape_withContents.waves_eq, hwaves, hgraph]

theorem contentDigest_eq_iff {id : Nat} (hid : id ∈ (ofNodes nodes).loaded) :
    (ofNodes (withContents content nodes)).contentDigest id =
        (ofNodes (withContents content' nodes)).contentDigest id ↔
      content ((ofNodes nodes).name id) =
        content' ((ofNodes nodes).name id) := by
  rw [contentDigest_withContents hid, contentDigest_withContents hid,
    Subtype.coe_inj]

theorem idxOf_mem_covered
    {p q : Text} (hneeds : Needs nodes p q) (hclear : ¬Entangled nodes q) :
    (ofNodes nodes).names.idxOf q ∈
      (ofNodes nodes).covered ((ofNodes nodes).names.idxOf p) := by
  rw [(proper_ofNodes nodes).mem_covered_iff, idxOf_mem_left_iff hneeds.2.1]
  exact ⟨edge_of_needs hneeds, hclear⟩

theorem needs_of_mem_covered {u v : Nat} (hv : v ∈ (ofNodes nodes).covered u) :
    Needs nodes ((ofNodes nodes).name u) ((ofNodes nodes).name v) ∧
      ¬Entangled nodes ((ofNodes nodes).name v) := by
  obtain ⟨hedge, hleft⟩ := (proper_ofNodes nodes).mem_covered_iff.1 hv
  rw [mem_left_iff_entangled hedge.2.1] at hleft
  exact ⟨needs_of_edge hedge, hleft⟩

theorem mem_loaded_of_covered
    {u v : Nat} (hu : u ∈ (ofNodes nodes).loaded)
    (huv : Relation.ReflTransGen (fun u v => v ∈ (ofNodes nodes).covered u) u
      v) :
    v ∈ (ofNodes nodes).loaded := by
  rcases huv.cases_tail with rfl | ⟨_, -, hcovered⟩
  · exact hu
  · exact ((proper_ofNodes nodes).mem_covered_iff.1 hcovered).1.2.1

/-- What is covered has the names that are reached over imports that are not
entangled. -/
theorem forall_covered_iff
    {P : Text → Prop} {p : Text} (hp : (nodeNamed? nodes p).isSome = true) :
    (∀ v, Relation.ReflTransGen (fun u v => v ∈ (ofNodes nodes).covered u)
        ((ofNodes nodes).names.idxOf p) v → P ((ofNodes nodes).name v)) ↔
      ∀ q, Relation.ReflTransGen (fun a b => Needs nodes a b ∧
        ¬Entangled nodes b) p q → P q := by
  constructor
  · intro hall q hq
    have hreached :
        Relation.ReflTransGen (fun u v => v ∈ (ofNodes nodes).covered u)
        ((ofNodes nodes).names.idxOf p) ((ofNodes nodes).names.idxOf q) :=
      hq.lift (ofNodes nodes).names.idxOf fun _ _ h => idxOf_mem_covered h.1 h.2
    have hqnamed : (nodeNamed? nodes q).isSome = true := by
      rcases hq.cases_tail with rfl | ⟨_, -, hneeds, -⟩
      · exact hp
      · exact hneeds.2.1
    have hname := hall _ hreached
    rw [name_idxOf hqnamed] at hname
    exact hname
  · intro hall v hv
    have hreached :
        Relation.ReflTransGen (fun a b => Needs nodes a b ∧ ¬Entangled nodes b)
        ((ofNodes nodes).name ((ofNodes nodes).names.idxOf p))
        ((ofNodes nodes).name v) :=
      hv.lift (ofNodes nodes).name fun _ _ h => needs_of_mem_covered h
    rw [name_idxOf hp] at hreached
    exact hall _ hreached

/-- The digests of a document under two assignments of contents agree if and
only if the contents do of all that is reached over imports that are not
entangled. -/
theorem documentDigest_eq_iff
    (hfree : Digest.CollisionFree
      ((ofNodes (withContents content nodes)).digestedTexts ++
      (ofNodes (withContents content' nodes)).digestedTexts))
    {p : Text} (hp : (nodeNamed? nodes p).isSome = true) :
    documentDigest (withContents content nodes) p =
      documentDigest (withContents content' nodes) p ↔
      ∀ q, Relation.ReflTransGen (fun a b => Needs nodes a b ∧
      ¬Entangled nodes b) p q →
        content q = content' q := by
  have hshape : SameShape (ofNodes (withContents content nodes))
    (ofNodes nodes) :=
    sameShape_withContents
  have hshape' : SameShape (ofNodes (withContents content' nodes))
    (ofNodes nodes) :=
    sameShape_withContents
  have hsize : ∀ {c : Text → Digest.Block}, ∀ id ∈ (ofNodes nodes).loaded,
      ((ofNodes (withContents c nodes)).contentDigest id).length = 32 := by
    intro c id hid
    rw [contentDigest_withContents hid]
    exact (c _).2
  have hloaded := idxOf_mem_loaded hp
  rw [← forall_covered_iff hp, documentDigest, documentDigest,
    names_withContents, names_withContents]
  rw [← hshape.loaded_eq] at hsize hloaded
  rw [(proper_ofNodes _).digest_eq_iff_contentDigest_eq (proper_ofNodes _)
    (hshape.trans hshape'.symm) hsize hsize hfree hloaded, hshape.covered_eq]
  rw [hshape.loaded_eq] at hloaded
  exact forall₂_congr fun v hv =>
    contentDigest_eq_iff (mem_loaded_of_covered hloaded hv)

end Contents

/-- Without cycles, the digest of a document tells exactly the contents of all
it depends on. -/
theorem digest_eq_iff_contents_eq
    {nodes : List GraphNode} (hacyclic : ∀ p, ¬OnCycle nodes p)
    {content content' : Text → Digest.Block}
    (hfree : Digest.CollisionFree
      ((ofNodes (withContents content nodes)).digestedTexts ++
      (ofNodes (withContents content' nodes)).digestedTexts))
    {p : Text} (hp : (nodeNamed? nodes p).isSome = true) :
    documentDigest (withContents content nodes) p =
      documentDigest (withContents content' nodes) p ↔
      ∀ q, Relation.ReflTransGen (Needs nodes) p q →
      content q = content' q := by
  have hclear : ∀ q, ¬Entangled nodes q := fun q ⟨c, hcycle, _⟩ =>
    hacyclic c hcycle
  simp only [documentDigest_eq_iff hfree hp, hclear, not_false_eq_true,
    and_true]

def zeros : Text → Digest.Block :=
  fun _ => ⟨Text.fill 32 0, rfl⟩

def ones : Digest.Block :=
  ⟨Text.fill 32 1, rfl⟩

theorem digestedTexts_sample (content : Text → Digest.Block) :
    (ofNodes (withContents content sample)).digestedTexts =
      let wayland := (content "wayland.xml").1 ++ [].flatten
      let shell := (content "shell.xml").1 ++ [Digest.sha256 wayland].flatten
      let app :=
      (content "app.xml").1 ++
        [Digest.sha256 shell, Digest.sha256 wayland].flatten
      [app, shell, wayland] := by
  have hnames : (ofNodes sample).names =
      ["app.xml", "gone.xml", "shell.xml", "wayland.xml"].map
      Text.ofString := by
    cbv
  have hwaves : (ofNodes sample).waves =
      { batches := [[0], [2], [3]], order := [0, 2, 3], isCyclic := false,
        left := [] } := by
    cbv
  rw [digestedTexts_withContents hnames hwaves]
  rfl

/-- The content at the far end of two imports is covered. -/
theorem sample_digest_ne :
    (∀ p, ¬OnCycle sample p) ∧
      Digest.CollisionFree
      ((ofNodes (withContents zeros sample)).digestedTexts ++
        (ofNodes
        (withContents (Function.update zeros "wayland.xml" ones)
        sample)).digestedTexts) ∧
      (nodeNamed? sample "app.xml").isSome = true ∧
      documentDigest (withContents zeros sample) "app.xml" ≠
        documentDigest
        (withContents (Function.update zeros "wayland.xml" ones) sample)
        "app.xml" := by
  have hacyclic : ∀ p, ¬OnCycle sample p :=
    isCyclic_ofNodes_eq_false_iff.1 (by cbv)
  have hfree :
      Digest.CollisionFree
      ((ofNodes (withContents zeros sample)).digestedTexts ++
      (ofNodes
      (withContents (Function.update zeros "wayland.xml" ones)
      sample)).digestedTexts) := by
    refine Digest.collisionFree_of_nodup (fun _ => id) ?_
    rw [digestedTexts_sample, digestedTexts_sample]
    decide +kernel
  have hnamed : (nodeNamed? sample "app.xml").isSome = true := by decide +kernel
  have hshell : Needs sample "app.xml" "shell.xml" := by decide +kernel
  have hwayland : Needs sample "shell.xml" "wayland.xml" := by decide +kernel
  refine ⟨hacyclic, hfree, hnamed, fun heq => ?_⟩
  have hcontent :=
    (digest_eq_iff_contents_eq hacyclic hfree hnamed).1 heq "wayland.xml"
    (.tail (.single hshell) hwayland)
  rw [Function.update_self] at hcontent
  exact absurd hcontent (by decide +kernel)

theorem ne_of_entangled
    {nodes : List GraphNode} {p d q : Text} (hne : p ≠ d)
    (hentangled : Entangled nodes d)
    (hq : Relation.ReflTransGen (fun a b => Needs nodes a b ∧
      ¬Entangled nodes b) p q) :
    q ≠ d := by
  rintro rfl
  rcases hq.cases_tail with heq | ⟨_, -, -, hclear⟩
  · exact hne heq.symm
  · exact hclear hentangled

/-- The content of an entangled document is in no digest but its own. -/
theorem documentDigest_update_of_entangled
    {nodes : List GraphNode} {content : Text → Digest.Block} {p d : Text}
    {changed : Digest.Block} (hne : p ≠ d) (hentangled : Entangled nodes d)
    (hfree : Digest.CollisionFree
      ((ofNodes (withContents content nodes)).digestedTexts ++
      (ofNodes
      (withContents (Function.update content d changed) nodes)).digestedTexts))
    (hp : (nodeNamed? nodes p).isSome = true) :
    documentDigest (withContents content nodes) p =
      documentDigest (withContents (Function.update content d changed) nodes)
      p := by
  rw [documentDigest_eq_iff hfree hp]
  intro q hq
  rw [Function.update_of_ne (ne_of_entangled hne hentangled hq)]

/-- The digest of a document tells the content of one of its imports exactly if
no cycle leads to that. -/
theorem digest_ne_iff_not_entangled
    {nodes : List GraphNode} {content : Text → Digest.Block} {p d : Text}
    {changed : Digest.Block} (hneeds : Needs nodes p d)
    (hchanged : changed ≠ content d)
    (hfree : Digest.CollisionFree
      ((ofNodes (withContents content nodes)).digestedTexts ++
      (ofNodes
      (withContents (Function.update content d changed)
      nodes)).digestedTexts)) :
    documentDigest (withContents content nodes) p ≠
        documentDigest (withContents (Function.update content d changed) nodes)
        p ↔
      ¬Entangled nodes d := by
  obtain ⟨x, hx, -⟩ := hneeds.2.2
  have hp : (nodeNamed? nodes p).isSome = true := Option.isSome_of_eq_some hx
  constructor
  · intro hdiffers hentangled
    exact hdiffers
      (documentDigest_update_of_entangled hneeds.1 hentangled hfree hp)
  · intro hclear heq
    have hsame :=
      (documentDigest_eq_iff hfree hp).1 heq d (.single ⟨hneeds, hclear⟩)
    rw [Function.update_self] at hsame
    exact hchanged hsame.symm

theorem digestedTexts_tangle (content : Text → Digest.Block) :
    (ofNodes (withContents content tangle)).digestedTexts =
      let alone (name : Text) := (content name).1 ++ [].flatten
      ((content "app.xml").1 ++ [Digest.sha256 (alone "core.xml")].flatten) ::
        [alone "core.xml", alone "leaf.xml", alone "left.xml",
        alone "right.xml"] := by
  rw [digestedTexts_withContents names_tangle waves_tangle]
  rfl

/-- Whichever content is changed, these are the texts that are digested. -/
theorem collisionFree_tangle
    {d : Text}
    (hd : ∀ t ∈ (ofNodes (withContents zeros tangle)).digestedTexts ++
      (ofNodes
      (withContents (Function.update zeros d ones) tangle)).digestedTexts,
      t ∈ [Text.fill 32 0, Text.fill 32 1, Text.fill 32 0 ++ Digest.sha256
      (Text.fill 32 0), Text.fill 32 0 ++ Digest.sha256 (Text.fill 32 1)]) :
    Digest.CollisionFree ((ofNodes (withContents zeros tangle)).digestedTexts ++
      (ofNodes
      (withContents (Function.update zeros d ones) tangle)).digestedTexts) :=
  Digest.collisionFree_of_nodup hd (by decide +kernel)

/-- Beside a cycle, an import that no cycle leads to is covered. -/
theorem tangle_core_covered :
    (ofNodes tangle).waves.isCyclic = true ∧ Needs tangle "app.xml" "core.xml" ∧
      ones ≠ zeros "core.xml" ∧
      Digest.CollisionFree
      ((ofNodes (withContents zeros tangle)).digestedTexts ++
        (ofNodes
        (withContents (Function.update zeros "core.xml" ones)
        tangle)).digestedTexts) ∧
      documentDigest (withContents zeros tangle) "app.xml" ≠
        documentDigest
        (withContents (Function.update zeros "core.xml" ones) tangle)
        "app.xml" := by
  have hneeds : Needs tangle "app.xml" "core.xml" := by decide +kernel
  have hones : ones ≠ zeros "core.xml" := by decide +kernel
  have hfree := collisionFree_tangle (d := "core.xml") (by
    rw [digestedTexts_tangle, digestedTexts_tangle]
    decide +kernel)
  have hclear : ¬Entangled tangle "core.xml" := by
    rw [← idxOf_mem_left_iff hneeds.2.1, waves_tangle, names_tangle]
    decide +kernel
  exact ⟨by rw [waves_tangle], hneeds, hones, hfree,
    (digest_ne_iff_not_entangled hneeds hones hfree).2 hclear⟩

/-- The content of a document on a cycle can change, and the digest of a
document that imports it and lies on no cycle stays. -/
theorem tangle_left_not_covered :
    (ofNodes tangle).waves.isCyclic = true ∧ ¬OnCycle tangle "app.xml" ∧
      Needs tangle "app.xml" "left.xml" ∧ ones ≠ zeros "left.xml" ∧
      Digest.CollisionFree
      ((ofNodes (withContents zeros tangle)).digestedTexts ++
        (ofNodes
        (withContents (Function.update zeros "left.xml" ones)
        tangle)).digestedTexts) ∧
      documentDigest (withContents zeros tangle) "app.xml" =
        documentDigest
        (withContents (Function.update zeros "left.xml" ones) tangle)
        "app.xml" := by
  have hneeds : Needs tangle "app.xml" "left.xml" := by decide +kernel
  have hfree := collisionFree_tangle (d := "left.xml") (by
    rw [digestedTexts_tangle, digestedTexts_tangle]
    decide +kernel)
  refine ⟨by rw [waves_tangle],
    fun hcycle => not_entangled_tangle_app hcycle.entangled, hneeds,
    by decide +kernel, hfree, ?_⟩
  exact documentDigest_update_of_entangled hneeds.1
    onCycle_tangle_left.entangled hfree (by decide +kernel)

end ImportGraph

end ProtocolCorpus
