import ProtocolCorpus.ImportGraph.Basic

/-!
# Waves

The loaded documents are taken in waves. For every document there is a count of
the importers that have not been taken; a wave holds all documents whose count
is zero, and taking it lowers the counts of what its documents import. When no
document is free any more, the remaining ones lie on import cycles or behind
them. Documents are emitted with what they depend on first, and those that are
left over last.
-/

namespace ProtocolCorpus

structure Waves where
  batches : List (List Nat)
  /-- The documents in the order they were taken: importers before what
  they import. -/
  order : List Nat
  /-- Some documents are in no wave. -/
  isCyclic : Bool
  left : List Nat
  deriving DecidableEq, Repr

/-- How many importers of each document have not been taken, and the documents
that have just lost their last one. -/
structure Tally where
  counts : List Int
  freed : List Nat := []
  deriving DecidableEq, Repr

/-- The counts, the documents to be taken next and those that have been taken.
-/
structure Sweep where
  counts : List Int
  wave : List Nat
  batches : List (List Nat) := []
  order : List Nat := []
  deriving DecidableEq, Repr

namespace Tally

/-- The documents that are free or may become free. -/
def pending (t : Tally) : Nat :=
  t.counts.countP (fun n => decide (0 < n)) + t.freed.length

end Tally

namespace Sweep

def pending (s : Sweep) : Nat :=
  s.counts.countP (fun n => decide (0 < n)) + s.wave.length

end Sweep

namespace ImportGraph

/-- One importer of a document has been taken. Documents that are not loaded are
not counted. -/
def lower (g : ImportGraph) (t : Tally) (v : Nat) : Tally :=
  match t.counts[v]? with
  | some n =>
    if g.present v then
      { counts := t.counts.set v (n - 1),
        freed := if n - 1 = 0 then t.freed ++ [v] else t.freed }
    else t
  | none => t

/-- A document has been taken, with what that means for the documents
it imports. -/
def release (g : ImportGraph) (t : Tally) (u : Nat) : Tally :=
  (g.targets u).foldl g.lower t

/-- The counts after a wave, and the documents it frees. -/
def tally (g : ImportGraph) (s : Sweep) : Tally :=
  s.wave.foldl g.release { counts := s.counts }

def advance (g : ImportGraph) (s : Sweep) : Sweep where
  counts := (g.tally s).counts
  wave := (g.tally s).freed.mergeSort
  batches := s.batches ++ [s.wave]
  order := s.order ++ s.wave

theorem pending_lower_le (g : ImportGraph) (t : Tally) (v : Nat) :
    (g.lower t v).pending ≤ t.pending := by
  unfold lower
  split
  next n hn =>
    split
    next =>
      obtain ⟨hv, rfl⟩ := List.getElem?_eq_some_iff.1 hn
      have hmem : 0 < t.counts[v] →
        0 < t.counts.countP (fun n => decide (0 < n)) := fun hpos =>
          List.countP_pos_iff.2
          ⟨t.counts[v], List.getElem_mem hv, decide_eq_true hpos⟩
      -- A count that reaches zero was positive, so its document only changes
      -- sides.
      simp only [Tally.pending, List.countP_set hv, decide_eq_true_eq,
        apply_ite List.length, List.length_append, List.length_singleton]
      split <;> split <;> split <;> omega
    next => exact Nat.le_refl _
  next => exact Nat.le_refl _

theorem pending_release_le (g : ImportGraph) (t : Tally) (u : Nat) :
    (g.release t u).pending ≤ t.pending := by
  refine List.foldlRecOn (motive := fun s => s.pending ≤ t.pending)
    (g.targets u) g.lower ?_ ?_
  · exact Nat.le_refl _
  · intro s hs v _
    exact Nat.le_trans (g.pending_lower_le s v) hs

theorem pending_advance_lt
    (g : ImportGraph) {s : Sweep} (h : s.wave ≠ []) : (g.advance s).pending <
    s.pending := by
  have hle : (g.tally s).pending ≤
      s.counts.countP (fun n => decide (0 < n)) := by
    refine List.foldlRecOn (motive := fun t => t.pending ≤ _) s.wave
      g.release ?_ ?_
    · exact Nat.le_refl _
    · intro t ht u _
      exact Nat.le_trans (g.pending_release_le t u) ht
  have hpos : 0 < s.wave.length := List.length_pos_iff.2 h
  simp only [Sweep.pending, advance, List.length_mergeSort]
  simp only [Tally.pending] at hle
  omega

/-- Take waves as long as there is a free document. -/
def sweep (g : ImportGraph) (s : Sweep) : Sweep :=
  if _h : s.wave = [] then s else sweep g (g.advance s)
termination_by s.pending
decreasing_by exact g.pending_advance_lt _h

def start (g : ImportGraph) : Sweep where
  counts := g.ids.map fun id => (g.indegree id : Int)
  wave := g.loaded.filter fun id => g.indegree id = 0

def waves (g : ImportGraph) : Waves :=
  let s := g.sweep g.start
  let cyclic := s.order.length != g.loaded.length
  { batches := s.batches
    order := s.order
    isCyclic := cyclic
    left := if cyclic then g.loaded.filter fun id =>
      decide (0 < (s.counts[id]?).getD 0) else [] }

end ImportGraph

def Waves.emission (w : Waves) : List Nat :=
  w.order.reverse ++ w.left

namespace ImportGraph

def emitted (nodes : List GraphNode) : List Text :=
  let g := ofNodes nodes
  (g.waves.emission.filter g.present).map g.name

def cycleWarning (path : List Text) (d : GraphDocument) : Diagnostic :=
  .warning .importCycle d.span { protocol := d.protocol }
    ("document " ++ d.path.quoted ++ " participates in an import cycle: " ++
    Text.join " -> " path)

def cycleWarnings (g : ImportGraph) (w : Waves) : List Diagnostic :=
  let path := w.left.map g.name
  w.left.filterMap fun id =>
    match g.node? id with
    | some x => if x.silent then none else some (cycleWarning path x.document)
    | none => none

end ImportGraph

end ProtocolCorpus
