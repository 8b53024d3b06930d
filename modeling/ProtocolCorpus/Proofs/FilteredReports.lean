import ProtocolCorpus.Proofs.Bag

/-!
# Reports through a filter

Repeated reports of a finding can be dropped as they come in, or all reports can
be collected and the repeated ones dropped afterwards. The filter remembers a
finding also when the bag behind it is full. So what it lets pass does not
depend on the bag, and is what would be left of all reports.
-/

namespace ProtocolCorpus

namespace FilteredBag

def reportAll (f : FilteredBag) (ds : List Diagnostic) : FilteredBag :=
  ds.foldl report f

theorem report_of_seen
    {f : FilteredBag} {d : Diagnostic} (h : f.seen.keys.contains d.key = true) :
    f.report d = f := by
  simp [report, Seen.visit, h]

theorem report_of_new
    {f : FilteredBag} {d : Diagnostic}
    (h : f.seen.keys.contains d.key = false) :
    f.report d = ⟨⟨f.seen.keys.insert d.key⟩, f.bag.add d⟩ := by
  simp [report, Seen.visit, h]

/-- The bag is given the findings that the filter has not seen, whether it has
room for them or not. -/
theorem bag_reportAll (f : FilteredBag) (ds : List Diagnostic) :
    (f.reportAll ds).bag = f.bag.addAll (f.seen.fresh ds) := by
  induction ds generalizing f with
  | nil => rfl
  | cons d ds ih =>
    have hnext : (f.reportAll (d :: ds)).bag =
      (f.report d).bag.addAll ((f.report d).seen.fresh ds) :=
      ih (f.report d)
    rw [hnext, Seen.fresh]
    cases hseen : f.seen.keys.contains d.key with
    | true =>
      rw [report_of_seen hseen]
      rfl
    | false =>
      rw [report_of_new hseen]
      rfl

/-- A bag behind a filter holds the first of what is left when as many reports
as the largest bag can hold are collected there and the repeated ones dropped.
-/
theorem reportAll_eq_take_dedup
    (limit : Int) {ds : List Diagnostic} (h : ds.length ≤ 65535) :
    (reportAll { bag := Bag.new limit } ds).bag.items.toList =
      ((Bag.new 0).addAll ds).dedup.items.toList.take
      (Bag.new limit).limit := by
  have hall : ((Bag.new 0).addAll ds).items.toList = ds := by
    rw [Bag.toList_addAll_new]
    exact List.take_of_length_le h
  have hdedup : ((Bag.new 0).addAll ds).dedup.items.toList =
      ({} : Seen).fresh ds := by
    simp only [Bag.dedup, hall]
  rw [hdedup, bag_reportAll]
  exact Bag.toList_addAll_new limit _

/-- Reports of three findings, two of them repeated, one of these when the bag
is full. -/
def echoes : List Diagnostic :=
  ["a", "b", "a", "c", "c", "b"].map fun message =>
    { message := Text.ofString message }

theorem echoes_eq_take_dedup :
    echoes.length ≤ 65535 ∧
      ((Bag.new 0).addAll echoes).dedup.items.toList.map Diagnostic.message =
        ["a", "b", "c"].map Text.ofString ∧
      (reportAll { bag := Bag.new 2 } echoes).bag.items.toList.map
        Diagnostic.message =
        ["a", "b"].map Text.ofString := by
  have hdedup : ((Bag.new 0).addAll echoes).dedup.items.toList.map
      Diagnostic.message =
      ["a", "b", "c"].map Text.ofString := by
    have hitems : ((Bag.new 0).addAll echoes).items.toList = echoes := by
      decide +kernel
    simp only [Bag.dedup, hitems]
    simp +decide [echoes, Seen.fresh, Diagnostic.key]
  refine ⟨by decide, hdedup, ?_⟩
  rw [reportAll_eq_take_dedup 2 (by decide), List.map_take, hdedup]
  rfl

end FilteredBag

end ProtocolCorpus
