import ProtocolCorpus.Proofs.Emission

/-!
# What is in which wave

A document is taken in the wave that follows the last of its importers. So the
number of its wave is the number of imports in the longest chain of documents
that leads to it: every document that is left after some waves is at the end of
a chain of as many imports, and what a document in a wave is imported by has
been taken before. Nothing is assumed of the documents, as in the theory of
cycles.
-/

namespace ProtocolCorpus

namespace ImportGraph

variable {g : ImportGraph} {s : Sweep} {v : Nat}

/-! ## Chains -/

/-- A chain of so many steps of a relation ends here. -/
inductive ChainTo {α : Type} (R : α → α → Prop) : Nat → α → Prop
  | start (a : α) : ChainTo R 0 a
  | step {n : Nat} {a b : α} : ChainTo R n a → R a b → ChainTo R (n + 1) b

/-- The longest chain that ends here has so many steps. -/
structure Longest {α : Type} (R : α → α → Prop) (a : α) (k : Nat) : Prop where
  chain : ChainTo R k a
  le : ∀ n, ChainTo R n a → n ≤ k

section Chains

variable {α β : Type} {R : α → α → Prop} {S : β → β → Prop}

theorem Longest.unique
    {a : α} {j k : Nat} (hj : Longest R a j) (hk : Longest R a k) :
    j = k :=
  Nat.le_antisymm (hk.le j hj.chain) (hj.le k hk.chain)

theorem ChainTo.map
    {f : α → β} (hf : ∀ a b, R a b → S (f a) (f b)) {n : Nat} {a : α}
    (h : ChainTo R n a) :
    ChainTo S n (f a) := by
  induction h with
  | start a => exact .start (f a)
  | step _ hab ih => exact .step ih (hf _ _ hab)

/-- Chains are bounded by the chains of what leads here. -/
theorem ChainTo.le_of_forall
    {b : α} {k : Nat} (h : ∀ a, R a b → ∀ n, ChainTo R n a → n < k) {n : Nat}
    (hn : ChainTo R n b) :
    n ≤ k := by
  cases hn with
  | start => exact Nat.zero_le k
  | step hchain hab => exact h _ hab _ hchain

/-- Where one can always go back a step further, chains have any length. -/
theorem chainTo_of_forall_exists
    {p : α → Prop} (h : ∀ b, p b → ∃ a, p a ∧ R a b) (n : Nat) {b : α}
    (hb : p b) :
    ChainTo R n b := by
  induction n generalizing b with
  | zero => exact .start b
  | succ n ih =>
    obtain ⟨a, ha, hab⟩ := h b hb
    exact .step (ih ha) hab

end Chains

/-! ## The waves of a graph -/

/-- What is true of the waves that have been taken, and of the documents that
are left. -/
structure Layered (g : ImportGraph) (s : Sweep) : Prop where
  flatten_batches : s.batches.flatten = s.order
  ascending : ∀ b ∈ s.batches, b.Pairwise (· < ·)
  longest : ∀ (k : Nat) (b : List Nat), s.batches[k]? = some b →
    ∀ v ∈ b, Longest g.Edge v k
  /-- To what is left leads a chain through all waves. -/
  chain : ∀ v ∈ g.rest s, ChainTo g.Edge s.batches.length v

theorem layered_start (g : ImportGraph) :
    Layered g g.start := by
  constructor
  case flatten_batches => rfl
  case ascending =>
    intro b hb
    cases hb
  case longest =>
    intro k b hb
    cases hb
  case chain =>
    intro v _
    exact .start v

theorem batches_advance (g : ImportGraph) (s : Sweep) :
    (g.advance s).batches = s.batches ++ [s.wave] :=
  rfl

theorem Layered.exists_longest (h : Layered g s) (hv : v ∈ s.order) :
    ∃ k b, s.batches[k]? = some b ∧ v ∈ b ∧ Longest g.Edge v k := by
  rw [← h.flatten_batches, List.mem_flatten] at hv
  obtain ⟨b, hb, hv⟩ := hv
  obtain ⟨k, hk⟩ := List.mem_iff_getElem?.1 hb
  exact ⟨k, b, hk, hv, h.longest k b hk v hv⟩

/-- The importers of a document in the wave have been taken, so the chains to it
go through the waves before. -/
theorem Layered.longest_wave (h : Layered g s) (hswept : Swept g s)
    (hv : v ∈ s.wave) :
    Longest g.Edge v s.batches.length := by
  obtain ⟨hrest, hzero⟩ := hswept.mem_wave_iff.1 hv
  refine ⟨h.chain v hrest, fun n hn => hn.le_of_forall ?_⟩
  intro u hedge m hm
  have horder : u ∈ s.order := by
    by_contra hu
    have hfalse :=
      importers_eq_zero_iff.1 hzero u (mem_rest_iff.2 ⟨hedge.1, hu⟩)
    rw [hedge.2.2] at hfalse
    cases hfalse
  obtain ⟨k, b, hb, -, hlongest⟩ := h.exists_longest horder
  exact Nat.lt_of_le_of_lt (hlongest.le m hm) (List.getElem?_eq_some_iff.1 hb).1

/-- What is left after a wave is imported by a document that was left before it.
-/
theorem Layered.chain_advance (h : Layered g s) (hswept : Swept g s)
    (hv : v ∈ g.rest (g.advance s)) :
    ChainTo g.Edge (s.batches.length + 1) v := by
  rw [hswept.rest_advance, List.mem_filter] at hv
  obtain ⟨hrest, hheld⟩ := hv
  have hpos : 0 < g.importers (g.rest s) v := by
    rw [Bool.not_eq_true', decide_eq_false_iff_not] at hheld
    exact Nat.pos_of_ne_zero hheld
  obtain ⟨u, hu, himports⟩ := List.countP_pos_iff.1 hpos
  exact .step (h.chain u hu)
    ⟨(mem_rest_iff.1 hu).1, (mem_rest_iff.1 hrest).1, himports⟩

theorem Layered.advance (h : Layered g s) (hswept : Swept g s) :
    Layered g (g.advance s) := by
  constructor
  case flatten_batches =>
    rw [batches_advance, List.flatten_append, h.flatten_batches,
      List.flatten_singleton]
    rfl
  case ascending =>
    intro b hb
    rw [batches_advance, List.mem_append, List.mem_singleton] at hb
    rcases hb with hb | rfl
    · exact h.ascending b hb
    · rw [hswept.wave_eq]
      exact (g.pairwise_loaded.filter _).filter _
  case longest =>
    intro k b hb v hv
    rw [batches_advance, List.getElem?_append] at hb
    split at hb
    next => exact h.longest k b hb v hv
    next hk =>
      obtain ⟨hlast, rfl⟩ := List.getElem?_eq_some_iff.1 hb
      rw [List.length_singleton] at hlast
      obtain rfl : k = s.batches.length := by omega
      rw [List.getElem_singleton] at hv
      exact h.longest_wave hswept hv
  case chain =>
    intro v hv
    rw [batches_advance, List.length_append]
    exact h.chain_advance hswept hv

theorem Proper.layered_sweep (hg : g.Proper) :
    Layered g (g.sweep g.start) := by
  obtain ⟨n, hiterate, -, -⟩ := g.exists_sweep_eq_iterate g.start
  rw [hiterate]
  have hboth : Swept g (g.advance^[n] g.start) ∧
    Layered g (g.advance^[n] g.start) :=
    Function.Iterate.rec (fun s => Swept g s ∧ Layered g s)
      ⟨hg.swept_start, g.layered_start⟩
      (fun _ h => ⟨h.1.advance hg, h.2.advance h.1⟩) n
  exact hboth.2

theorem Proper.mem_batch_iff_longest (hg : g.Proper) (hv : v ∈ g.waves.order)
    (k : Nat) :
    (∃ b, g.waves.batches[k]? = some b ∧ v ∈ b) ↔ Longest g.Edge v k := by
  have hlayered := hg.layered_sweep
  constructor
  · rintro ⟨b, hb, hmem⟩
    exact hlayered.longest k b hb v hmem
  · intro hlongest
    obtain ⟨j, b, hb, hmem, hlongest'⟩ := hlayered.exists_longest hv
    rw [hlongest.unique hlongest']
    exact ⟨b, hb, hmem⟩

theorem Proper.mem_order_iff_longest (hg : g.Proper) (hv : v ∈ g.loaded) :
    v ∈ g.waves.order ↔ ∃ k, Longest g.Edge v k := by
  have hswept := hg.swept_sweep
  obtain ⟨-, -, hend, -⟩ := g.exists_sweep_eq_iterate g.start
  constructor
  · intro horder
    obtain ⟨k, -, -, -, hlongest⟩ := hg.layered_sweep.exists_longest horder
    exact ⟨k, hlongest⟩
  · rintro ⟨k, hlongest⟩
    by_contra horder
    -- Behind a document that is left there is always another one.
    have hback : ∀ b, b ∈ g.rest (g.sweep g.start) →
        ∃ a, a ∈ g.rest (g.sweep g.start) ∧ g.Edge a b := by
      intro b hb
      obtain ⟨a, ha, himports⟩ := hswept.exists_importer hend hb
      exact ⟨a, ha, (mem_rest_iff.1 ha).1, (mem_rest_iff.1 hb).1, himports⟩
    have hchain :=
      chainTo_of_forall_exists hback (k + 1) (mem_rest_iff.2 ⟨hv, horder⟩)
    have hle := hlongest.le _ hchain
    omega

/-! ## The waves of documents -/

theorem longest_needs_iff
    {nodes : List GraphNode} {id : Nat} (hid : id ∈ (ofNodes nodes).loaded)
    (k : Nat) :
    Longest (Needs nodes) ((ofNodes nodes).name id) k ↔
      Longest (ofNodes nodes).Edge id k := by
  have hchain : ∀ n, ChainTo (Needs nodes) n ((ofNodes nodes).name id) ↔
      ChainTo (ofNodes nodes).Edge n id := by
    intro n
    constructor
    · intro h
      have hedges := h.map (f := (ofNodes nodes).names.idxOf) fun _ _ =>
        edge_of_needs
      rwa [idxOf_name hid] at hedges
    · intro h
      exact h.map (f := (ofNodes nodes).name) fun _ _ => needs_of_edge
  constructor
  · intro h
    exact ⟨(hchain k).1 h.chain, fun n hn => h.le n ((hchain n).2 hn)⟩
  · intro h
    exact ⟨(hchain k).2 h.chain, fun n hn => h.le n ((hchain n).1 hn)⟩

/-- What the waves of loaded documents are. -/
structure BatchedByDepth (nodes : List GraphNode) (g : ImportGraph) : Prop where
  flatten_batches : g.waves.batches.flatten = g.waves.order
  ascending : ∀ b ∈ g.waves.batches, b.Pairwise (· < ·)
  /-- The documents that are taken are those to which chains of bounded length
  lead. -/
  mem_order_iff : ∀ id ∈ g.loaded,
    (id ∈ g.waves.order ↔ ∃ k, Longest (Needs nodes) (g.name id) k)
  /-- The number of a wave is the length of the longest chain to any document in
  it. -/
  mem_batch_iff : ∀ id ∈ g.waves.order, ∀ k,
    (∃ b, g.waves.batches[k]? = some b ∧ id ∈ b) ↔
    Longest (Needs nodes) (g.name id) k
  /-- Documents of one wave do not import each other. -/
  independent : ∀ b ∈ g.waves.batches, ∀ u ∈ b, ∀ v ∈ b,
    ¬Needs nodes (g.name u) (g.name v)

/-- Whatever documents import, they are taken in waves by the longest chains
that lead to them. -/
theorem batchedByDepth_ofNodes (nodes : List GraphNode) :
    BatchedByDepth nodes (ofNodes nodes) := by
  have hproper := proper_ofNodes nodes
  have hlayered := hproper.layered_sweep
  have hflatten : (ofNodes nodes).waves.batches.flatten =
    (ofNodes nodes).waves.order :=
    hlayered.flatten_batches
  have hloaded : ∀ {id}, id ∈ (ofNodes nodes).waves.order →
    id ∈ (ofNodes nodes).loaded :=
    fun hid => hproper.swept_sweep.order_subset hid
  have hbatch : ∀ id ∈ (ofNodes nodes).waves.order, ∀ k,
      (∃ b, (ofNodes nodes).waves.batches[k]? = some b ∧ id ∈ b) ↔
        Longest (Needs nodes) ((ofNodes nodes).name id) k := by
    intro id hid k
    rw [hproper.mem_batch_iff_longest hid, longest_needs_iff (hloaded hid)]
  constructor
  case flatten_batches => exact hflatten
  case ascending => exact hlayered.ascending
  case mem_order_iff =>
    intro id hid
    simp only [hproper.mem_order_iff_longest hid, longest_needs_iff hid]
  case mem_batch_iff => exact hbatch
  case independent =>
    intro b hb u hu v hv hneeds
    obtain ⟨k, hk⟩ := List.mem_iff_getElem?.1 hb
    have horder : ∀ w ∈ b, w ∈ (ofNodes nodes).waves.order := by
      intro w hw
      rw [← hflatten]
      exact List.mem_flatten.2 ⟨b, hb, hw⟩
    have hlongest_u := (hbatch u (horder u hu) k).1 ⟨b, hk, hu⟩
    have hlongest_v := (hbatch v (horder v hv) k).1 ⟨b, hk, hv⟩
    -- The chain to the one document would go on to the other.
    have hle := hlongest_v.le _ (.step hlongest_u.chain hneeds)
    omega

end ImportGraph

end ProtocolCorpus
