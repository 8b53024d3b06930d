import ProtocolCorpus.Registry.Basic

/-!
# The order of texts and declarations

Texts are compared byte by byte, declarations of an interface by import path,
protocol and document. Both orders are total, and declarations neither of which
stands before the other agree in all three. Sorting does not move such
declarations past each other.
-/

namespace ProtocolCorpus

/-- Sorting does not move tied elements past each other. -/
theorem filter_mergeSort_of_tied
    {α : Type} {le : α → α → Bool}
    (htrans : ∀ a b c, le a b = true → le b c = true → le a c = true)
    (htotal : ∀ a b, (le a b || le b a) = true) {p : α → Bool} {l : List α}
    (htied : ∀ a ∈ l, ∀ b ∈ l, p a = true → p b = true → le a b = true) :
    (l.mergeSort le).filter p = l.filter p := by
  have hpairwise : (l.filter p).Pairwise fun a b => le a b = true := by
    apply List.pairwise_of_forall_mem_list
    intro a ha b hb
    obtain ⟨hal, hpa⟩ := List.mem_filter.1 ha
    obtain ⟨hbl, hpb⟩ := List.mem_filter.1 hb
    exact htied a hal b hbl hpa hpb
  have hsublist : (l.filter p).Sublist ((l.mergeSort le).filter p) := by
    have hsorted :=
      (List.sublist_mergeSort htrans htotal hpairwise
        List.filter_sublist).filter p
    simpa only [List.filter_filter, Bool.and_self] using hsorted
  have hlength : ((l.mergeSort le).filter p).length = (l.filter p).length :=
    ((List.mergeSort_perm l le).filter p).length_eq
  exact (hsublist.eq_of_length hlength.symm).symm

theorem mem_of_filter_tied_eq
    {α : Type} {le : α → α → Bool} {l l' : List α} {a : α}
    (hrefl : le a a = true) (ha : a ∈ l)
    (h : l.filter (fun b => le a b && le b a) = l'.filter fun b =>
      le a b && le b a) :
    a ∈ l' := by
  have hgroup : a ∈ l.filter fun b => le a b && le b a :=
    List.mem_filter.2 ⟨ha, by simp [hrefl]⟩
  rw [h] at hgroup
  exact (List.mem_filter.1 hgroup).1

/-- Sorted lists are equal if they agree on every group of tied elements. -/
theorem eq_of_pairwise_of_filter_tied
    {α : Type} {le : α → α → Bool} (hrefl : ∀ a, le a a = true) {l l' : List α}
    (hl : l.Pairwise fun a b => le a b = true)
    (hl' : l'.Pairwise fun a b => le a b = true)
    (h : ∀ a, l.filter (fun b => le a b && le b a) = l'.filter fun b =>
      le a b && le b a) :
    l = l' := by
  induction l generalizing l' with
  | nil =>
    cases l' with
    | nil => rfl
    | cons b l' =>
      cases mem_of_filter_tied_eq (hrefl b) List.mem_cons_self (h b).symm
  | cons a l ih =>
    cases l' with
    | nil => cases mem_of_filter_tied_eq (hrefl a) List.mem_cons_self (h a)
    | cons b l' =>
      have hab : le a b = true := by
        rcases List.mem_cons.1
          (mem_of_filter_tied_eq (hrefl b) List.mem_cons_self (h b).symm)
          with rfl | hb
        · exact hrefl b
        · exact List.rel_of_pairwise_cons hl hb
      have hba : le b a = true := by
        rcases List.mem_cons.1
          (mem_of_filter_tied_eq (hrefl a) List.mem_cons_self (h a))
          with rfl | ha
        · exact hrefl a
        · exact List.rel_of_pairwise_cons hl' ha
      -- The heads are tied, so each is the first of the same group.
      have hheads : a = b := by
        have hgroup := h a
        simp only [List.filter_cons, hrefl, hab, hba, Bool.and_self, if_true,
          List.cons.injEq] at hgroup
        exact hgroup.1
      subst hheads
      have htails : l = l' := by
        apply ih hl.of_cons hl'.of_cons
        intro c
        have hgroup := h c
        rw [List.filter_cons, List.filter_cons] at hgroup
        split at hgroup
        · exact (List.cons.inj hgroup).2
        · exact hgroup
      rw [htails]

theorem bne_gt_eq_isLE (o : Ordering) :
    (o != .gt) = o.isLE := by
  cases o with
  | lt => rfl
  | eq => rfl
  | gt => rfl

theorem isLE_total
    {α : Type} (cmp : α → α → Ordering) [Std.OrientedCmp cmp] (a b : α) :
    ((cmp a b).isLE || (cmp b a).isLE) = true := by
  have hswap : cmp b a = (cmp a b).swap := Std.OrientedCmp.eq_swap
  rw [hswap]
  cases cmp a b with
  | lt => rfl
  | eq => rfl
  | gt => rfl

theorem Text.compare_eq_compare (s t : Text) :
    Text.compare s t = Ord.compare s t := by
  induction s generalizing t with
  | nil =>
    cases t with
    | nil => rfl
    | cons b t => rfl
  | cons a s ih =>
    cases t with
    | nil => rfl
    | cons b t =>
      rw [Text.compare, List.compare_cons_cons, ih t]
      change _ = (compareOfLessAndEq a b).then _
      unfold compareOfLessAndEq
      by_cases hab : a < b
      · simp [hab]
      · by_cases hba : b < a
        · have hne : a ≠ b := fun heq => hab (heq ▸ hba)
          simp [hab, hba, hne]
        · have heq : a = b :=
            UInt8.le_antisymm (UInt8.not_lt.1 hba) (UInt8.not_lt.1 hab)
          simp [heq]

namespace Text

theorem eq_of_compare
    {s t : Text} (h : compare s t = .eq) :
    s = t := by
  rw [compare_eq_compare] at h
  exact Std.LawfulEqCmp.eq_of_compare h

theorem compare_self (s : Text) :
    compare s s = .eq := by
  rw [compare_eq_compare]
  exact Std.ReflCmp.compare_self

theorem le_eq_isLE (s t : Text) :
    le s t = (Ord.compare s t).isLE := by
  rw [le, compare_eq_compare, bne_gt_eq_isLE]

theorem le_trans
    (s t u : Text) (hst : le s t = true) (htu : le t u = true) :
    le s u = true := by
  rw [le_eq_isLE] at hst htu ⊢
  exact Std.TransCmp.isLE_trans hst htu

theorem le_total (s t : Text) :
    (le s t || le t s) = true := by
  rw [le_eq_isLE, le_eq_isLE]
  exact isLE_total Ord.compare s t

theorem le_antisymm
    {s t : Text} (hst : le s t = true) (hts : le t s = true) :
    s = t := by
  rw [le_eq_isLE] at hst hts
  exact Std.LawfulEqCmp.eq_of_compare (Std.OrientedCmp.isLE_antisymm hst hts)

theorem before_iff_le_and_ne {s t : Text} :
    before s t = true ↔ le s t = true ∧ s ≠ t := by
  have heq : s = t ↔ Ord.compare s t = .eq :=
    Std.LawfulEqCmp.compare_eq_iff_eq.symm
  rw [before, le, compare_eq_compare, ne_eq, heq]
  cases Ord.compare s t with
  | lt => decide
  | eq => decide
  | gt => decide

end Text

namespace Registry.Owner

variable {a b : Owner}

/-- Declarations compared by import path, protocol and document. -/
def compareKeys : Owner → Owner → Ordering :=
  compareLex (compareOn Owner.importPath)
    (compareLex (compareOn Owner.protocol) (compareOn Owner.document))

instance : Std.TransCmp compareKeys :=
  inferInstanceAs (Std.TransCmp (compareLex _ (compareLex _ _)))

theorem ordered_eq_isLE (a b : Owner) :
    ordered a b = (compareKeys a b).isLE := by
  simp only [ordered, compareKeys, compareLex, compareOn,
    Text.compare_eq_compare, bne_gt_eq_isLE]

theorem ordered_trans
    (a b c : Owner) (hab : ordered a b = true) (hbc : ordered b c = true) :
    ordered a c = true := by
  rw [ordered_eq_isLE] at hab hbc ⊢
  exact Std.TransCmp.isLE_trans hab hbc

theorem ordered_total (a b : Owner) :
    (ordered a b || ordered b a) = true := by
  rw [ordered_eq_isLE, ordered_eq_isLE]
  exact isLE_total compareKeys a b

/-- Declarations that stand before each other have the same import path,
protocol and document. -/
theorem ordered_antisymm (hab : ordered a b = true) (hba : ordered b a = true) :
    a.importPath = b.importPath ∧ a.protocol = b.protocol ∧
    a.document = b.document := by
  rw [ordered_eq_isLE] at hab hba
  have heq : compareKeys a b = .eq := Std.OrientedCmp.isLE_antisymm hab hba
  simpa [compareKeys, compareLex, compareOn, Ordering.then_eq_eq] using heq

/-- `a` stands before `b` by import path, protocol and document, or agrees with
it in all three. -/
def Ascending (a b : Owner) : Prop :=
  Text.before a.importPath b.importPath = true ∨ a.importPath = b.importPath ∧
    (Text.before a.protocol b.protocol = true ∨ a.protocol = b.protocol ∧
      Text.le a.document b.document = true)

theorem ascending_of_ordered (h : ordered a b = true) :
    Ascending a b := by
  unfold ordered at h
  unfold Ascending Text.before Text.le
  cases hpath : Text.compare a.importPath b.importPath with
  | lt => exact .inl rfl
  | gt => simp [hpath] at h
  | eq =>
    refine .inr ⟨Text.eq_of_compare hpath, ?_⟩
    cases hprotocol : Text.compare a.protocol b.protocol with
    | lt => exact .inl rfl
    | gt => simp [hpath, hprotocol] at h
    | eq =>
      refine .inr ⟨Text.eq_of_compare hprotocol, ?_⟩
      simpa [hpath, hprotocol] using h

theorem ordered_of_eq (hpath : a.importPath = b.importPath)
    (hprotocol : a.protocol = b.protocol)
    (hdocument : a.document = b.document) :
    ordered a b = true := by
  simp [ordered, hpath, hprotocol, hdocument, Text.compare_self]

end Registry.Owner

namespace Registry

theorem owners_perm (r : Registry) (name : Text) :
    (r.owners name).Perm (r.declarations.filter fun o => o.declaration.name ==
    name) :=
  List.mergeSort_perm _ _

theorem owners_pairwise (r : Registry) (name : Text) :
    (r.owners name).Pairwise fun a b => Owner.ordered a b = true :=
  List.pairwise_mergeSort Owner.ordered_trans Owner.ordered_total _

theorem mem_owners_iff
    {r : Registry} {name : Text} {o : Owner} :
    o ∈ r.owners name ↔ o ∈ r.declarations ∧ o.declaration.name = name := by
  rw [(owners_perm r name).mem_iff, List.mem_filter, beq_iff_eq]

end Registry

end ProtocolCorpus
