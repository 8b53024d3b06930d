import Mathlib.Data.Fintype.EquivFin
import Mathlib.Logic.Relation
import ProtocolCorpus.ImportGraph.Waves

/-!
# Taking documents in waves

The loop over waves keeps a count for every document and never looks at the
graph as a whole. This module says what the counts are: after any number of
waves, the count of a loaded document is the number of its importers that have
not been taken, and the next wave holds exactly the documents without one. It
follows that the documents taken stand in an order of the imports, and that
documents are left over if and only if the imports have a cycle.
-/

namespace ProtocolCorpus

namespace ImportGraph

variable {g : ImportGraph} {u v : Nat} {s : Sweep} {done : List Nat}
  {counts : List Int} {t : Tally}

/-- There is a slot for every name, a document imports no document twice and not
itself, and one that is not loaded imports nothing. -/
structure Proper (g : ImportGraph) : Prop where
  length_slots : g.slots.length = g.names.length
  nodup_targets : ∀ u, (g.targets u).Nodup
  not_mem_targets : ∀ u, u ∉ g.targets u
  targets_absent : ∀ u, g.present u = false → g.targets u = []

def Edge (g : ImportGraph) (u v : Nat) : Prop :=
  u ∈ g.loaded ∧ v ∈ g.loaded ∧ g.imports u v = true

/-- How many of the documents `us` import a document. -/
def importers (g : ImportGraph) (us : List Nat) (v : Nat) : Nat :=
  us.countP fun u => g.imports u v

/-- The loaded documents that have not been taken. -/
def rest (g : ImportGraph) (s : Sweep) : List Nat :=
  g.loaded.filter fun v => !s.order.contains v

theorem imports_iff :
    g.imports u v = true ↔ v ∈ g.targets u :=
  List.contains_iff_mem

theorem importers_eq_zero_iff {us : List Nat} :
    g.importers us v = 0 ↔ ∀ u ∈ us, g.imports u v = false := by
  simp [importers, List.countP_eq_zero]

theorem mem_rest_iff :
    v ∈ g.rest s ↔ v ∈ g.loaded ∧ v ∉ s.order := by
  simp [rest, List.mem_filter]

theorem pairwise_loaded (g : ImportGraph) :
    g.loaded.Pairwise (· < ·) :=
  List.pairwise_lt_range.filter _

theorem nodup_loaded (g : ImportGraph) :
    g.loaded.Nodup :=
  g.pairwise_loaded.imp Nat.ne_of_lt

theorem present_of_mem_loaded (hv : v ∈ g.loaded) :
    g.present v = true :=
  (List.mem_filter.1 hv).2

theorem Proper.mem_loaded_iff (hg : g.Proper) :
    v ∈ g.loaded ↔ g.present v = true := by
  refine ⟨present_of_mem_loaded, fun hv => ?_⟩
  have hlt : v < g.slots.length := by
    by_contra hge
    simp [present, node?, List.getElem?_eq_none (Nat.le_of_not_lt hge)] at hv
  rw [hg.length_slots] at hlt
  exact List.mem_filter.2 ⟨List.mem_range.2 hlt, hv⟩

theorem Proper.mem_loaded_of_imports (hg : g.Proper)
    (h : g.imports u v = true) :
    u ∈ g.loaded := by
  rw [hg.mem_loaded_iff]
  by_contra habsent
  rw [imports_iff, hg.targets_absent u (Bool.eq_false_of_not_eq_true habsent)]
    at h
  cases h

/-! ## Lowering counts -/

/-- What is true of a tally after the counts of the documents `done` have been
lowered in turn. -/
structure Lowered (g : ImportGraph) (counts : List Int) (done : List Nat)
    (t : Tally) : Prop where
  counts_eq : ∀ v, t.counts[v]? =
    counts[v]?.map fun n => if g.present v then n - (done.count v : Int) else n
  nodup_freed : t.freed.Nodup
  mem_freed_iff : ∀ v, v ∈ t.freed ↔
    g.present v = true ∧ ∃ n, counts[v]? = some n ∧ 0 < n ∧
    n ≤ (done.count v : Int)

theorem lowered_nil (g : ImportGraph) (counts : List Int) :
    Lowered g counts [] { counts } := by
  constructor
  case counts_eq => simp
  case nodup_freed => exact List.nodup_nil
  case mem_freed_iff =>
    intro v
    constructor
    · intro hv
      cases hv
    · rintro ⟨-, n, -, hpos, hle⟩
      rw [List.count_nil] at hle
      omega

theorem count_concat_of_ne {w : Nat} (hw : w ≠ v) :
    (done ++ [v]).count w = done.count w := by
  rw [List.count_append, List.count_singleton, beq_false_of_ne hw.symm]
  rfl

/-- Lowering the count of a document that has none changes nothing. -/
theorem Lowered.skip (h : Lowered g counts done t)
    (hv : g.present v = false ∨ counts[v]? = none) :
    Lowered g counts (done ++ [v]) t := by
  constructor
  case counts_eq =>
    intro w
    rw [h.counts_eq w]
    by_cases hw : w = v
    · subst hw
      rcases hv with hv | hv
      · simp [hv]
      · simp [hv]
    · rw [count_concat_of_ne hw]
  case nodup_freed => exact h.nodup_freed
  case mem_freed_iff =>
    intro w
    rw [h.mem_freed_iff w]
    by_cases hw : w = v
    · subst hw
      rcases hv with hv | hv
      · simp [hv]
      · simp [hv]
    · rw [count_concat_of_ne hw]

/-- A loaded document is freed when its count comes down to zero. -/
theorem Lowered.set (h : Lowered g counts done t) {n : Int}
    (hpresent : g.present v = true) (hn : counts[v]? = some n) :
    Lowered g counts (done ++ [v])
      { counts := t.counts.set v (n - done.count v - 1)
        freed := if n - (done.count v : Int) - 1 = 0 then t.freed ++ [v]
          else t.freed } := by
  have hself : ((done ++ [v]).count v : Int) = done.count v + 1 := by
    simp [List.count_append]
  have hfreed : v ∈ t.freed ↔ 0 < n ∧ n ≤ (done.count v : Int) := by
    rw [h.mem_freed_iff v, hn]
    simp [hpresent]
  constructor
  case counts_eq =>
    intro w
    by_cases hw : w = v
    · subst hw
      have hlt : w < t.counts.length := by
        by_contra hge
        have hcounts := h.counts_eq w
        rw [hn, List.getElem?_eq_none (Nat.le_of_not_lt hge)] at hcounts
        cases hcounts
      rw [List.getElem?_set_self hlt, hn, Option.map_some, hpresent, if_pos rfl,
        hself]
      congr 1
      omega
    · rw [List.getElem?_set_ne (Ne.symm hw), h.counts_eq w,
        count_concat_of_ne hw]
  case nodup_freed =>
    split
    next hzero =>
      have hnew : v ∉ t.freed := by
        rw [hfreed]
        omega
      exact List.Nodup.append h.nodup_freed (List.nodup_singleton v)
        (List.disjoint_singleton.2 hnew)
    next => exact h.nodup_freed
  case mem_freed_iff =>
    intro w
    by_cases hw : w = v
    · subst hw
      have hgoal : (g.present w = true ∧ ∃ m, counts[w]? = some m ∧ 0 < m ∧
          m ≤ ((done ++ [w]).count w : Int)) ↔ 0 < n ∧
          n ≤ done.count w + 1 := by
        rw [hself, hn]
        simp [hpresent]
      rw [hgoal]
      split
      next hzero =>
        rw [List.mem_append, hfreed, List.mem_singleton]
        constructor
        · rintro (hold | -)
          · omega
          · omega
        · intro _
          exact .inr rfl
      next hzero =>
        rw [hfreed]
        omega
    · rw [count_concat_of_ne hw, ← h.mem_freed_iff w]
      split
      next => simp [hw]
      next => rfl

theorem Lowered.lower (h : Lowered g counts done t) (v : Nat) :
    Lowered g counts (done ++ [v]) (g.lower t v) := by
  have hcounts := h.counts_eq v
  unfold ImportGraph.lower
  cases hn : counts[v]? with
  | none =>
    rw [hn] at hcounts
    simp only [hcounts, Option.map_none]
    exact h.skip (.inr hn)
  | some n =>
    rw [hn] at hcounts
    simp only [hcounts, Option.map_some]
    cases hpresent : g.present v with
    | false =>
      simp only [Bool.false_eq_true, if_false]
      exact h.skip (.inl hpresent)
    | true =>
      simp only [if_true]
      exact h.set hpresent hn

theorem Lowered.foldl (h : Lowered g counts done t) (vs : List Nat) :
    Lowered g counts (done ++ vs) (vs.foldl g.lower t) := by
  induction vs generalizing done t with
  | nil =>
    rw [List.append_nil]
    exact h
  | cons v vs ih =>
    rw [List.append_cons]
    exact ih (h.lower v)

theorem Proper.count_flatMap_targets (hg : g.Proper) (us : List Nat) (v : Nat) :
    (us.flatMap g.targets).count v = g.importers us v := by
  induction us with
  | nil => rfl
  | cons u us ih =>
    rw [List.flatMap_cons, List.count_append, ih, (hg.nodup_targets u).count,
      importers, importers, List.countP_cons, Nat.add_comm]
    simp only [imports_iff]

/-- Taking a wave lowers the count of a document once for each of its importers
in the wave. -/
theorem Proper.lowered_tally (hg : g.Proper) (s : Sweep) :
    ∃ done, Lowered g s.counts done (g.tally s) ∧ ∀ v, done.count v =
    g.importers s.wave v := by
  refine ⟨s.wave.flatMap g.targets, ?_, hg.count_flatMap_targets s.wave⟩
  have hrun := (lowered_nil g s.counts).foldl (s.wave.flatMap g.targets)
  rw [List.foldl_flatMap] at hrun
  exact hrun

/-! ## The invariant of the loop -/

theorem counts_advance (g : ImportGraph) (s : Sweep) :
    (g.advance s).counts = (g.tally s).counts :=
  rfl

theorem mem_wave_advance_iff :
    v ∈ (g.advance s).wave ↔ v ∈ (g.tally s).freed :=
  List.mem_mergeSort

theorem pairwise_wave_advance (g : ImportGraph) (s : Sweep) :
    (g.advance s).wave.Pairwise (· ≤ ·) := by
  have htrans : ∀ a b c : Nat,
      decide (a ≤ b) = true → decide (b ≤ c) = true → decide (a ≤ c) =
      true := by
    intro a b c hab hbc
    exact decide_eq_true
      (Nat.le_trans (of_decide_eq_true hab) (of_decide_eq_true hbc))
  have htotal : ∀ a b : Nat, (decide (a ≤ b) || decide (b ≤ a)) = true := by
    simpa using Nat.le_total
  exact (List.pairwise_mergeSort htrans htotal (g.tally s).freed).imp
    of_decide_eq_true

/-- What is true after any number of waves. -/
structure Swept (g : ImportGraph) (s : Sweep) : Prop where
  nodup_order : s.order.Nodup
  order_subset : s.order ⊆ g.loaded
  /-- A document is taken after all of its importers. -/
  closed : ∀ v ∈ s.order, g.importers (g.rest s) v = 0
  /-- No document imports one that was taken before. -/
  ordered : s.order.Pairwise fun u v => g.imports v u = false
  counts_eq : ∀ v ∈ g.loaded, s.counts[v]? =
    some (g.importers (g.rest s) v : Int)
  wave_eq : s.wave = (g.rest s).filter fun v => g.importers (g.rest s) v = 0

theorem Proper.indegree_eq (hg : g.Proper) (hv : v ∈ g.loaded) :
    g.indegree v = g.importers g.loaded v := by
  rw [indegree, if_pos (present_of_mem_loaded hv), importers, loaded,
    List.countP_filter]
  apply List.countP_congr
  intro u _
  constructor
  · intro h
    rw [h, present_of_mem_loaded (hg.mem_loaded_of_imports h)]
    rfl
  · intro h
    exact (Bool.and_eq_true_iff.1 h).1

theorem rest_start (g : ImportGraph) :
    g.rest g.start = g.loaded :=
  List.filter_eq_self.2 fun _ _ => rfl

theorem Proper.swept_start (hg : g.Proper) :
    Swept g g.start := by
  constructor
  case nodup_order => exact List.nodup_nil
  case order_subset => exact List.nil_subset _
  case closed =>
    intro v hv
    cases hv
  case ordered => exact List.Pairwise.nil
  case counts_eq =>
    intro v hv
    have hlt : v < g.names.length := List.mem_range.1 (List.mem_filter.1 hv).1
    rw [rest_start, ← hg.indegree_eq hv]
    simp [start, ids, hlt]
  case wave_eq =>
    rw [rest_start, start]
    apply List.filter_congr
    intro v hv
    rw [hg.indegree_eq hv]

theorem Swept.wave_subset (h : Swept g s) :
    s.wave ⊆ g.rest s := by
  rw [h.wave_eq]
  exact List.filter_subset_self _

theorem Swept.mem_wave_iff (h : Swept g s) :
    v ∈ s.wave ↔ v ∈ g.rest s ∧ g.importers (g.rest s) v = 0 := by
  rw [h.wave_eq, List.mem_filter, decide_eq_true_eq]

theorem Swept.rest_advance (h : Swept g s) :
    g.rest (g.advance s) = (g.rest s).filter fun v =>
      !decide (g.importers (g.rest s) v = 0) := by
  rw [rest, rest, List.filter_filter]
  apply List.filter_congr
  intro v hv
  have hwave : v ∈ s.wave ↔ v ∉ s.order ∧ g.importers (g.rest s) v = 0 := by
    rw [h.mem_wave_iff, mem_rest_iff]
    simp [hv]
  rw [Bool.eq_iff_iff]
  simp only [advance, List.contains_eq_mem, List.mem_append, hwave, rest]
  by_cases hv' : v ∈ s.order <;> simp [hv']

/-- The importers that were left are those in the wave and those left after it.
-/
theorem Swept.importers_rest (h : Swept g s) (v : Nat) :
    g.importers (g.rest s) v = g.importers s.wave v + g.importers
    (g.rest (g.advance s)) v := by
  have hperm :=
    List.filter_append_perm (fun v => decide (g.importers (g.rest s) v = 0))
      (g.rest s)
  rw [← h.wave_eq, ← h.rest_advance] at hperm
  rw [importers, ← hperm.countP_eq, List.countP_append]
  rfl

theorem Swept.imports_eq_false (h : Swept g s) (hu : u ∈ s.wave)
    (hv : v ∈ s.order ∨ v ∈ s.wave) :
    g.imports u v = false := by
  have hzero : g.importers (g.rest s) v = 0 := by
    rcases hv with hv | hv
    · exact h.closed v hv
    · exact (h.mem_wave_iff.1 hv).2
  exact importers_eq_zero_iff.1 hzero u (h.wave_subset hu)

theorem Swept.mem_wave_advance_iff (hg : g.Proper) (h : Swept g s) :
    v ∈ (g.advance s).wave ↔
      v ∈ g.rest (g.advance s) ∧ g.importers (g.rest (g.advance s)) v = 0 := by
  obtain ⟨done, hlowered, hdone⟩ := hg.lowered_tally s
  have hfreed := hlowered.mem_freed_iff v
  rw [hdone v] at hfreed
  have hsplit := h.importers_rest v
  rw [ImportGraph.mem_wave_advance_iff, hfreed]
  nth_rewrite 1 [h.rest_advance]
  rw [List.mem_filter, mem_rest_iff]
  constructor
  · rintro ⟨hpresent, n, hn, hpos, hle⟩
    have hloaded := hg.mem_loaded_iff.2 hpresent
    rw [h.counts_eq v hloaded, Option.some.injEq] at hn
    have horder : v ∉ s.order := by
      intro hv
      have hzero := h.closed v hv
      omega
    refine ⟨⟨⟨hloaded, horder⟩, ?_⟩, by omega⟩
    simp only [Bool.not_eq_true', decide_eq_false_iff_not]
    omega
  · rintro ⟨⟨⟨hloaded, -⟩, hheld⟩, hzero⟩
    simp only [Bool.not_eq_true', decide_eq_false_iff_not] at hheld
    refine ⟨present_of_mem_loaded hloaded, _, h.counts_eq v hloaded, ?_, ?_⟩
    · omega
    · omega

theorem Swept.wave_advance_eq (hg : g.Proper) (h : Swept g s) :
    (g.advance s).wave = (g.rest (g.advance s)).filter fun v =>
      g.importers (g.rest (g.advance s)) v = 0 := by
  obtain ⟨done, hlowered, -⟩ := hg.lowered_tally s
  have hascending : ((g.rest (g.advance s)).filter fun v =>
      g.importers (g.rest (g.advance s)) v = 0).Pairwise (· < ·) :=
    (g.pairwise_loaded.filter _).filter _
  have hperm : (g.advance s).wave.Perm ((g.rest (g.advance s)).filter fun v =>
      g.importers (g.rest (g.advance s)) v = 0) := by
    rw [List.perm_ext_iff_of_nodup]
    · intro v
      rw [h.mem_wave_advance_iff hg, List.mem_filter, decide_eq_true_eq]
    · exact (List.mergeSort_perm _ _).nodup_iff.2 hlowered.nodup_freed
    · exact hascending.imp Nat.ne_of_lt
  exact hperm.eq_of_pairwise (fun _ _ _ _ => Nat.le_antisymm)
    (g.pairwise_wave_advance s)
    (hascending.imp Nat.le_of_lt)

theorem Swept.advance (hg : g.Proper) (h : Swept g s) :
    Swept g (g.advance s) := by
  have hwave : ∀ v ∈ s.wave, v ∈ g.loaded ∧ v ∉ s.order := fun v hv =>
    mem_rest_iff.1 (h.wave_subset hv)
  constructor
  case nodup_order =>
    have hnodup : s.wave.Nodup := by
      rw [h.wave_eq]
      exact (g.nodup_loaded.filter _).filter _
    refine List.Nodup.append h.nodup_order hnodup ?_
    intro v horder hv
    exact (hwave v hv).2 horder
  case order_subset =>
    intro v hv
    rcases List.mem_append.1 hv with hv | hv
    · exact h.order_subset hv
    · exact (hwave v hv).1
  case closed =>
    intro v hv
    have hzero : g.importers (g.rest s) v = 0 := by
      rcases List.mem_append.1 hv with hv | hv
      · exact h.closed v hv
      · exact (h.mem_wave_iff.1 hv).2
    have hsplit := h.importers_rest v
    omega
  case ordered =>
    refine List.pairwise_append.2 ⟨h.ordered, ?_, ?_⟩
    · exact List.pairwise_of_forall_mem_list
        fun u hu v hv => h.imports_eq_false hv (.inr hu)
    · intro u hu v hv
      exact h.imports_eq_false hv (.inl hu)
  case counts_eq =>
    intro v hv
    obtain ⟨done, hlowered, hdone⟩ := hg.lowered_tally s
    have hsplit := h.importers_rest v
    rw [counts_advance, hlowered.counts_eq v, h.counts_eq v hv, Option.map_some,
      if_pos (present_of_mem_loaded hv), hdone v]
    congr 1
    omega
  case wave_eq => exact h.wave_advance_eq hg

/-! ## The whole loop -/

/-- The loop ends, and takes a document in every round. -/
theorem exists_sweep_eq_iterate (g : ImportGraph) (s : Sweep) :
    ∃ n, g.sweep s = g.advance^[n] s ∧ (g.sweep s).wave = [] ∧
      s.order.length + n ≤ (g.sweep s).order.length := by
  induction s using sweep.induct g with
  | case1 s hwave =>
    have hdone : g.sweep s = s := by
      rw [sweep, dif_pos hwave]
    refine ⟨0, hdone, ?_, ?_⟩
    · rw [hdone, hwave]
    · rw [hdone, Nat.add_zero]
  | case2 s hwave ih =>
    obtain ⟨n, hiterate, hend, hlength⟩ := ih
    have hround : g.sweep s = g.sweep (g.advance s) := by
      rw [sweep, dif_neg hwave]
    have hpos : 0 < s.wave.length := List.length_pos_iff.2 hwave
    have horder : (g.advance s).order.length = s.order.length + s.wave.length :=
      List.length_append
    refine ⟨n + 1, ?_, ?_, ?_⟩
    · rw [hround, hiterate, Function.iterate_succ_apply]
    · rw [hround, hend]
    · rw [hround]
      omega

theorem Proper.swept_sweep (hg : g.Proper) :
    Swept g (g.sweep g.start) := by
  obtain ⟨n, hiterate, -, -⟩ := g.exists_sweep_eq_iterate g.start
  rw [hiterate]
  exact Function.Iterate.rec (Swept g) hg.swept_start
    (fun _ h => h.advance hg) n

theorem Swept.order_append_rest_perm (h : Swept g s) :
    (s.order ++ g.rest s).Perm g.loaded := by
  have hnodup : (s.order ++ g.rest s).Nodup := by
    refine List.Nodup.append h.nodup_order (g.nodup_loaded.filter _) ?_
    intro v horder hrest
    exact (mem_rest_iff.1 hrest).2 horder
  rw [List.perm_ext_iff_of_nodup hnodup g.nodup_loaded]
  intro v
  rw [List.mem_append, mem_rest_iff]
  constructor
  · rintro (hv | hv)
    · exact h.order_subset hv
    · exact hv.1
  · intro hv
    by_cases horder : v ∈ s.order
    · exact .inl horder
    · exact .inr ⟨hv, horder⟩

/-- When no document is free, every document that is left is imported by another
one that is left. -/
theorem Swept.exists_importer (h : Swept g s) (hend : s.wave = [])
    (hv : v ∈ g.rest s) :
    ∃ u ∈ g.rest s, g.imports u v = true := by
  by_contra hnone
  have hzero : g.importers (g.rest s) v = 0 := by
    rw [importers_eq_zero_iff]
    intro u hu
    exact Bool.eq_false_of_not_eq_true fun himports => hnone ⟨u, hu, himports⟩
  have hfree : v ∈ s.wave := h.mem_wave_iff.2 ⟨hv, hzero⟩
  rw [hend] at hfree
  cases hfree

theorem Proper.isCyclic_eq_false_iff_rest (hg : g.Proper) :
    g.waves.isCyclic = false ↔ g.rest (g.sweep g.start) = [] := by
  have hlength := hg.swept_sweep.order_append_rest_perm.length_eq
  rw [List.length_append] at hlength
  rw [waves, bne_eq_false_iff_eq, ← List.length_eq_zero_iff]
  omega

theorem Proper.left_eq_rest (hg : g.Proper) :
    g.waves.left = g.rest (g.sweep g.start) := by
  have hswept := hg.swept_sweep
  obtain ⟨-, -, hend, -⟩ := g.exists_sweep_eq_iterate g.start
  cases hcyclic : g.waves.isCyclic with
  | false =>
    rw [hg.isCyclic_eq_false_iff_rest.1 hcyclic]
    exact if_neg (Bool.eq_false_iff.1 hcyclic)
  | true =>
    refine (if_pos hcyclic).trans (List.filter_congr fun v hv => ?_)
    rw [hswept.counts_eq v hv, Option.getD_some, Bool.eq_iff_iff,
      decide_eq_true_eq, Bool.not_eq_true', List.contains_eq_mem,
      decide_eq_false_iff_not]
    constructor
    · intro hpos horder
      have hzero := hswept.closed v horder
      omega
    · intro horder
      obtain ⟨u, hu, himports⟩ :=
        hswept.exists_importer hend (mem_rest_iff.2 ⟨hv, horder⟩)
      have hne : g.importers (g.rest (g.sweep g.start)) v ≠ 0 := by
        intro hzero
        rw [importers_eq_zero_iff.1 hzero u hu] at himports
        cases himports
      omega

theorem Proper.emission_perm_loaded (hg : g.Proper) :
    g.waves.emission.Perm g.loaded := by
  rw [Waves.emission, hg.left_eq_rest]
  exact ((List.reverse_perm _).append_right _).trans
    hg.swept_sweep.order_append_rest_perm

theorem Proper.pairwise_emission (hg : g.Proper)
    (hacyclic : g.waves.isCyclic = false) :
    g.waves.emission.Pairwise fun u v => g.imports u v = false := by
  rw [Waves.emission, hg.left_eq_rest, hg.isCyclic_eq_false_iff_rest.1 hacyclic,
    List.append_nil, List.pairwise_reverse]
  exact hg.swept_sweep.ordered

/-! ## Cycles -/

/-- In a list in which nothing is related to what stands before it, related
elements stand in order. -/
theorem idxOf_lt_idxOf
    {α : Type} [BEq α] [LawfulBEq α] {R : α → α → Prop} {l : List α}
    (hl : l.Pairwise fun a b => ¬R b a)
    {a b : α} (ha : a ∈ l) (hb : b ∈ l) (hne : a ≠ b) (hab : R a b) :
    l.idxOf a < l.idxOf b := by
  have halt := List.idxOf_lt_length_of_mem ha
  have hblt := List.idxOf_lt_length_of_mem hb
  by_contra hle
  have hdistinct : l.idxOf a ≠ l.idxOf b := by
    intro heq
    apply hne
    rw [← List.getElem_idxOf halt, ← List.getElem_idxOf hblt]
    simp only [heq]
  have hlt : l.idxOf b < l.idxOf a := by omega
  have hnot := List.pairwise_iff_getElem.1 hl _ _ hblt halt hlt
  rw [List.getElem_idxOf, List.getElem_idxOf] at hnot
  exact hnot hab

theorem Proper.edge_irrefl (hg : g.Proper) (h : g.Edge u v) :
    u ≠ v := by
  rintro rfl
  exact hg.not_mem_targets u (imports_iff.1 h.2.2)

/-- A cycle among finitely many documents is found by going from importer
to importer. -/
theorem exists_cycle {us : List Nat} (hus : us ⊆ g.loaded) (hne : us ≠ [])
    (himporter : ∀ v ∈ us, ∃ u ∈ us, g.imports u v = true) :
    ∃ u ∈ us, Relation.TransGen g.Edge u u := by
  by_contra hacyclic
  let below : Fin us.length → Fin us.length → Prop := fun i j =>
    Relation.TransGen g.Edge (us.get i) (us.get j)
  have htrans : IsTrans (Fin us.length) below :=
    ⟨fun _ _ _ hij hjk => hij.trans hjk⟩
  have hirrefl : Std.Irrefl below :=
    ⟨fun i hi => hacyclic ⟨us.get i, us.get_mem i, hi⟩⟩
  have hnone : ∀ i : Fin us.length, False := by
    intro i
    induction i using (Finite.wellFounded_of_trans_of_irrefl below).induction
      with
    | _ i ih =>
      obtain ⟨u, hu, himports⟩ := himporter (us.get i) (us.get_mem i)
      obtain ⟨j, rfl⟩ := List.get_of_mem hu
      exact ih j (.single ⟨hus hu, hus (us.get_mem i), himports⟩)
  exact hnone ⟨0, List.length_pos_iff.2 hne⟩

theorem Swept.mem_order_of_edge (h : Swept g s) (hedge : g.Edge u v)
    (hv : v ∈ s.order) :
    u ∈ s.order := by
  by_contra hu
  have hfalse :=
    importers_eq_zero_iff.1 (h.closed v hv) u (mem_rest_iff.2 ⟨hedge.1, hu⟩)
  rw [hedge.2.2] at hfalse
  cases hfalse

theorem Swept.idxOf_lt_of_edge (hg : g.Proper) (h : Swept g s)
    (hedge : g.Edge u v) (hv : v ∈ s.order) :
    s.order.idxOf u < s.order.idxOf v := by
  have hordered : s.order.Pairwise fun a b => ¬g.Edge b a := by
    refine h.ordered.imp fun hfalse hback => ?_
    rw [hback.2.2] at hfalse
    cases hfalse
  exact idxOf_lt_idxOf hordered (h.mem_order_of_edge hedge hv) hv
    (hg.edge_irrefl hedge) hedge

/-- What leads to a document that was taken has been taken before it. -/
theorem Swept.idxOf_lt_of_transGen (hg : g.Proper) (h : Swept g s)
    (huv : Relation.TransGen g.Edge u v) (hv : v ∈ s.order) :
    s.order.idxOf u < s.order.idxOf v := by
  induction huv with
  | single hedge => exact h.idxOf_lt_of_edge hg hedge hv
  | tail _ hedge ih =>
    exact Nat.lt_trans (ih (h.mem_order_of_edge hedge hv))
      (h.idxOf_lt_of_edge hg hedge hv)

theorem Swept.mem_rest_of_reflTransGen (h : Swept g s) (hu : u ∈ g.rest s)
    (huv : Relation.ReflTransGen g.Edge u v) :
    v ∈ g.rest s := by
  induction huv with
  | refl => exact hu
  | tail _ hedge ih =>
    refine mem_rest_iff.2 ⟨hedge.2.1, fun horder => ?_⟩
    exact (mem_rest_iff.1 ih).2 (h.mem_order_of_edge hedge horder)

/-- The documents that are left over are those on cycles and those that a cycle
leads to. -/
theorem Proper.mem_left_iff (hg : g.Proper) :
    v ∈ g.waves.left ↔
      ∃ c, Relation.TransGen g.Edge c c ∧ Relation.ReflTransGen g.Edge c v := by
  classical
  have hswept := hg.swept_sweep
  obtain ⟨-, -, hend, -⟩ := g.exists_sweep_eq_iterate g.start
  rw [hg.left_eq_rest]
  constructor
  · intro hv
    -- Going backwards from `v` never leaves the documents that lead to `v`, so
    -- the cycle is among them.
    let us := (g.rest (g.sweep g.start)).filter fun u =>
      Relation.ReflTransGen g.Edge u v
    have hus : ∀ {u}, u ∈ us ↔
        u ∈ g.rest (g.sweep g.start) ∧ Relation.ReflTransGen g.Edge u v := by
      intro u
      rw [List.mem_filter, decide_eq_true_eq]
    have himporter : ∀ w ∈ us, ∃ u ∈ us, g.imports u w = true := by
      intro w hw
      obtain ⟨hrest, hleads⟩ := hus.1 hw
      obtain ⟨u, hu, himports⟩ := hswept.exists_importer hend hrest
      have hedge : g.Edge u w :=
        ⟨(mem_rest_iff.1 hu).1, (mem_rest_iff.1 hrest).1, himports⟩
      exact ⟨u, hus.2 ⟨hu, .head hedge hleads⟩, himports⟩
    have hmem : v ∈ us := hus.2 ⟨hv, .refl⟩
    obtain ⟨c, hc, hcycle⟩ :=
      exists_cycle (fun u hu => (mem_rest_iff.1 (hus.1 hu).1).1)
      (List.ne_nil_of_mem hmem) himporter
    exact ⟨c, hcycle, (hus.1 hc).2⟩
  · rintro ⟨c, hcycle, hleads⟩
    have hloaded : c ∈ g.loaded := by
      obtain ⟨_, hedge, -⟩ := Relation.TransGen.head'_iff.1 hcycle
      exact hedge.1
    have hrest : c ∈ g.rest (g.sweep g.start) := mem_rest_iff.2
      ⟨hloaded, fun horder =>
      Nat.lt_irrefl _ (hswept.idxOf_lt_of_transGen hg hcycle horder)⟩
    exact hswept.mem_rest_of_reflTransGen hrest hleads

/-- Documents are left over if and only if the imports have a cycle. -/
theorem Proper.isCyclic_eq_false_iff (hg : g.Proper) :
    g.waves.isCyclic = false ↔ ∀ u, ¬Relation.TransGen g.Edge u u := by
  rw [hg.isCyclic_eq_false_iff_rest, ← hg.left_eq_rest,
    List.eq_nil_iff_forall_not_mem]
  constructor
  · intro hnone u hcycle
    exact hnone u (hg.mem_left_iff.2 ⟨u, hcycle, .refl⟩)
  · intro hacyclic v hv
    obtain ⟨c, hcycle, -⟩ := hg.mem_left_iff.1 hv
    exact hacyclic c hcycle

end ImportGraph

end ProtocolCorpus
