import ProtocolCorpus.Proofs.Order
import ProtocolCorpus.Proofs.Rejection

/-!
# Sorted findings and repeated findings

Diagnostics are sorted by their places, and repeated reports of a finding are
dropped. The place of a diagnostic is part of what makes a finding, so all
reports of a finding are tied in the order, and sorting leaves the first of them
first. So it makes no difference which is done first: either way the first
report of each finding is left, and tied findings stand in the order in which
they were reported first.
-/

namespace ProtocolCorpus

/-! ## The first reports -/

namespace Seen

theorem fresh_sublist (s : Seen) (ds : List Diagnostic) :
    (s.fresh ds).Sublist ds := by
  induction ds generalizing s with
  | nil => exact List.Sublist.refl []
  | cons d ds ih =>
    rw [fresh]
    split
    · exact (ih s).cons d
    · exact (ih _).cons_cons d

theorem fresh_congr
    {s t : Seen} {ds : List Diagnostic}
    (h : ∀ d ∈ ds, s.keys.contains d.key = t.keys.contains d.key) :
    s.fresh ds = t.fresh ds := by
  induction ds generalizing s t with
  | nil => rfl
  | cons d ds ih =>
    obtain ⟨hd, hds⟩ := List.forall_mem_cons.1 h
    have hrest : fresh ⟨s.keys.insert d.key⟩ ds =
        fresh ⟨t.keys.insert d.key⟩ ds := by
      apply ih
      intro e he
      rw [Std.HashSet.contains_insert, Std.HashSet.contains_insert, hds e he]
    rw [fresh, fresh, hd, ih hds, hrest]

/-- A report is kept if it is the first of its finding. -/
theorem mem_fresh_iff
    {s : Seen} {ds : List Diagnostic} {d : Diagnostic} :
    d ∈ s.fresh ds ↔ s.keys.contains d.key = false ∧
      ds.find? (fun e => e.key == d.key) = some d := by
  induction ds generalizing s with
  | nil => simp [fresh]
  | cons x ds ih =>
    rw [fresh, List.find?_cons]
    by_cases hkey : x.key = d.key
    · rw [hkey, beq_self_eq_true]
      split
      next hseen => simp [ih, hseen]
      next hnew => simp [ih, hnew, eq_comm]
    · have hne : d ≠ x := fun heq => hkey (heq ▸ rfl)
      rw [beq_eq_false_iff_ne.2 hkey]
      split
      next => exact ih
      next => simp [ih, hne, hkey]

theorem nodup_map_key_fresh (s : Seen) (ds : List Diagnostic) :
    ((s.fresh ds).map Diagnostic.key).Nodup := by
  induction ds generalizing s with
  | nil => exact List.nodup_nil
  | cons d ds ih =>
    rw [fresh]
    split
    · exact ih s
    · rw [List.map_cons, List.nodup_cons]
      refine ⟨?_, ih _⟩
      intro hmem
      obtain ⟨e, he, hkey⟩ := List.mem_map.1 hmem
      have hnew := (mem_fresh_iff.1 he).1
      simp [hkey] at hnew

/-- To choose among findings and to drop repeated reports can be done in any
order. -/
theorem filter_fresh
    {p : Diagnostic → Bool} (hp : ∀ x y, x.key = y.key → p x = p y) (s : Seen)
    (ds : List Diagnostic) :
    (s.fresh ds).filter p = s.fresh (ds.filter p) := by
  induction ds generalizing s with
  | nil => rfl
  | cons d ds ih =>
    rw [fresh]
    split
    next hseen =>
      rw [ih, List.filter_cons]
      split
      · rw [fresh, if_pos hseen]
      · rfl
    next hnew =>
      rw [List.filter_cons, List.filter_cons, ih]
      split
      · rw [fresh, if_neg hnew]
      next hout =>
        -- No report of this finding is chosen, so that it is in memory makes no
        -- difference.
        apply fresh_congr
        intro e he
        have hne : d.key ≠ e.key := by
          intro heq
          rw [hp d e heq] at hout
          exact hout (List.mem_filter.1 he).2
        rw [Std.HashSet.contains_insert, beq_eq_false_iff_ne.2 hne,
          Bool.false_or]

end Seen

/-! ## The order of places -/

namespace Bag

/-- Diagnostics compared by file, start, end, severity from the most serious,
and code. -/
def compareKeys : Diagnostic → Diagnostic → Ordering :=
  compareLex (compareOn fun d => d.span.file) <|
    compareLex (compareOn fun d => d.span.start) <|
      compareLex (compareOn fun d => d.span.stop) <|
        compareLex (fun x y => compareOn (fun d => d.severity.level) y x)
        (compareOn fun d => d.code.number)

instance : Std.TransCmp compareKeys :=
  have : Std.TransCmp fun x y : Diagnostic =>
    compareOn (fun d => d.severity.level) y x := Std.TransCmp.opposite
  inferInstanceAs
    (Std.TransCmp (compareLex _ (compareLex _ (compareLex _ (compareLex _ _)))))

theorem ordered_eq_isLE (x y : Diagnostic) :
    ordered x y = (compareKeys x y).isLE :=
  bne_gt_eq_isLE (compareKeys x y)

theorem ordered_trans
    (x y z : Diagnostic) (hxy : ordered x y = true) (hyz : ordered y z = true) :
    ordered x z = true := by
  rw [ordered_eq_isLE] at hxy hyz ⊢
  exact Std.TransCmp.isLE_trans hxy hyz

theorem ordered_total (x y : Diagnostic) :
    (ordered x y || ordered y x) = true := by
  rw [ordered_eq_isLE, ordered_eq_isLE]
  exact isLE_total compareKeys x y

theorem ordered_refl (x : Diagnostic) :
    ordered x x = true := by
  simpa using ordered_total x x

/-- `x` stands before `y` by file, start, end, severity from the most serious,
and code, or agrees with it in all of them. -/
def Ascending (x y : Diagnostic) : Prop :=
  x.span.file < y.span.file ∨ x.span.file = y.span.file ∧
    (x.span.start < y.span.start ∨ x.span.start = y.span.start ∧
      (x.span.stop < y.span.stop ∨ x.span.stop = y.span.stop ∧
        (y.severity.level < x.severity.level ∨ y.severity.level =
        x.severity.level ∧
          x.code.number ≤ y.code.number)))

theorem ordered_iff_ascending {x y : Diagnostic} :
    ordered x y = true ↔ Ascending x y := by
  unfold ordered Ascending
  dsimp only
  rw [bne_gt_eq_isLE]
  simp only [Ordering.isLE_then_iff_or, Std.compare_eq_lt,
    Std.compare_eq_iff_eq, Std.isLE_compare]

/-- The diagnostics are at the same place, equally serious and of one kind. -/
def tied (x y : Diagnostic) : Bool :=
  ordered x y && ordered y x

theorem tied_eq_of_key
    {x y : Diagnostic} (h : x.key = y.key) (z : Diagnostic) :
    tied z x = tied z y := by
  have hspan : x.span = y.span := congrArg Diagnostic.Key.span h
  have hseverity : x.severity = y.severity := congrArg Diagnostic.Key.severity h
  have hcode : x.code = y.code := congrArg Diagnostic.Key.code h
  simp only [tied, ordered, hspan, hseverity, hcode]

theorem filter_tied_mergeSort (x : Diagnostic) (ds : List Diagnostic) :
    (ds.mergeSort ordered).filter (tied x) = ds.filter (tied x) := by
  apply filter_mergeSort_of_tied ordered_trans ordered_total
  intro y _ z _ hy hz
  rw [tied, Bool.and_eq_true] at hy hz
  exact ordered_trans y x z hy.2 hz.1

/-! ## Sorting and dropping repeated reports -/

/-- The first reports in order are the first of the reports in order. -/
theorem mergeSort_fresh (ds : List Diagnostic) :
    (({} : Seen).fresh ds).mergeSort ordered =
    ({} : Seen).fresh (ds.mergeSort ordered) := by
  apply eq_of_pairwise_of_filter_tied ordered_refl
  · exact List.pairwise_mergeSort ordered_trans ordered_total _
  · exact (List.pairwise_mergeSort ordered_trans ordered_total ds).sublist
      (Seen.fresh_sublist _ _)
  intro x
  have hkey : ∀ y z, y.key = z.key → tied x y = tied x z := fun y z h =>
    tied_eq_of_key h x
  calc
    ((({} : Seen).fresh ds).mergeSort ordered).filter (tied x) =
      (({} : Seen).fresh ds).filter (tied x) :=
      filter_tied_mergeSort x _
    _ = ({} : Seen).fresh (ds.filter (tied x)) := Seen.filter_fresh hkey _ ds
    _ = ({} : Seen).fresh ((ds.mergeSort ordered).filter (tied x)) := by
      rw [filter_tied_mergeSort]
    _ = (({} : Seen).fresh (ds.mergeSort ordered)).filter (tied x) :=
      (Seen.filter_fresh hkey _ _).symm

/-- What is left of a row of diagnostics that is sorted and has its repeated
reports dropped. -/
structure Tidied (ds left : List Diagnostic) : Prop where
  ascending : left.Pairwise Ascending
  /-- A report is left if it is the first of its finding. -/
  mem_iff : ∀ d, d ∈ left ↔ ds.find? (fun e => e.key == d.key) = some d
  nodup : (left.map Diagnostic.key).Nodup
  exists_mem : ∀ d ∈ ds, ∃ e ∈ left, e.key = d.key
  /-- Diagnostics that are tied stay in the order in which they were added. -/
  sublist : ∀ d, (left.filter (tied d)).Sublist ds

theorem tidied_mergeSort_fresh (ds : List Diagnostic) :
    Tidied ds ((({} : Seen).fresh ds).mergeSort ordered) := by
  have hperm : ((({} : Seen).fresh ds).mergeSort ordered).Perm
    (({} : Seen).fresh ds) :=
    List.mergeSort_perm _ _
  constructor
  case ascending =>
    exact (List.pairwise_mergeSort ordered_trans ordered_total _).imp
      ordered_iff_ascending.1
  case mem_iff =>
    intro d
    rw [hperm.mem_iff, Seen.mem_fresh_iff]
    simp
  case nodup =>
    exact (hperm.map Diagnostic.key).nodup_iff.2 (Seen.nodup_map_key_fresh _ _)
  case exists_mem =>
    intro d hd
    rcases Seen.exists_mem_fresh (s := {}) hd with hseen | ⟨e, he, hkey⟩
    · simp at hseen
    · exact ⟨e, hperm.mem_iff.2 he, hkey⟩
  case sublist =>
    intro d
    rw [filter_tied_mergeSort]
    exact List.filter_sublist.trans (Seen.fresh_sublist _ _)

/-- To sort and to drop repeated reports can be done in any order, and need not
be done twice. -/
theorem sort_dedup_comm (b : Bag) :
    b.sort.dedup = b.dedup.sort ∧
    Tidied b.items.toList b.sort.dedup.items.toList ∧
      b.sort.sort = b.sort ∧ b.dedup.dedup = b.dedup := by
  have hcomm : b.sort.dedup = b.dedup.sort := by
    simp only [sort, dedup, mergeSort_fresh]
  refine ⟨hcomm, ?_, ?_, ?_⟩
  · rw [hcomm]
    exact tidied_mergeSort_fresh b.items.toList
  · have hsorted :=
      List.pairwise_mergeSort ordered_trans ordered_total b.items.toList
    simp only [sort, List.mergeSort_of_pairwise hsorted]
  · have hnew :=
      Seen.fresh_eq_self (s := {}) (fun _ _ => Std.HashSet.contains_empty)
      (Seen.nodup_map_key_fresh {} b.items.toList)
    simp only [dedup, hnew]

end Bag

end ProtocolCorpus
