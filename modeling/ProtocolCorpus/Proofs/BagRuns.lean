import ProtocolCorpus.Proofs.Bag
import ProtocolCorpus.Proofs.Findings

/-!
# Bags throughout a run

Bags are made, filled, merged, filtered, sorted and cleared of repeated reports,
one call after the other. A call changes one bag at most, and the change keeps
the bag within its limit and never lowers the limit. What is merged into a bag
is therefore kept up to the largest limit there is, whatever the limits were on
the way.
-/

namespace ProtocolCorpus

namespace Bag

variable {b : Bag} {bags : List Bag} {i : Nat}

/-! ## One bag -/

/-- How a bag may change: it stays within its limit, and the limit does not
fall. -/
structure Evolves (b b' : Bag) : Prop where
  sound : Sound b → Sound b'
  limit_le : b.limit ≤ b'.limit

theorem evolves_of_size_le {b' : Bag} (hlimit : b'.limit = b.limit)
    (hsize : b'.size ≤ b.size) :
    Evolves b b' := by
  constructor
  case sound =>
    intro hb
    exact ⟨hlimit ▸ hb.limit_pos, hlimit ▸ hb.limit_le,
      hlimit ▸ Nat.le_trans hsize hb.size_le⟩
  case limit_le => exact Nat.le_of_eq hlimit.symm

theorem evolves_add (b : Bag) (d : Diagnostic) :
    Evolves b (b.add d) := by
  cases hroom : b.hasRoom with
  | true =>
    have hlt : b.items.size < b.limit := by simpa [hasRoom] using hroom
    rw [add_eq_push hroom]
    refine ⟨fun hb => ⟨hb.limit_pos, hb.limit_le, ?_⟩, Nat.le_refl _⟩
    rw [size, Array.size_push]
    exact hlt
  | false =>
    rw [add_eq_self hroom]
    exact ⟨id, Nat.le_refl _⟩

theorem evolves_merge (b other : Bag) :
    Evolves b (b.merge other) := by
  refine ⟨fun hb => hb.merge other, ?_⟩
  rw [merge, limit_addAll]
  exact Nat.le_max_left _ _

theorem evolves_filter (b : Bag) (keep : Diagnostic → Bool) :
    Evolves b (b.filter keep) :=
  evolves_of_size_le rfl Array.size_filter_le

theorem evolves_sort (b : Bag) :
    Evolves b b.sort := by
  have hlength := (List.mergeSort_perm b.items.toList ordered).length_eq
  exact evolves_of_size_le rfl (Nat.le_of_eq hlength)

theorem evolves_dedup (b : Bag) :
    Evolves b b.dedup := by
  have hlength := (Seen.fresh_sublist {} b.items.toList).length_le
  exact evolves_of_size_le rfl hlength

/-! ## Calls -/

/-- A call on one of the bags that were made so far. -/
inductive Call
  | new (limit : Int)
  | add (bag : Nat) (d : Diagnostic)
  | merge (bag other : Nat)
  | filter (bag : Nat) (keep : Diagnostic → Bool)
  | sort (bag : Nat)
  | dedup (bag : Nat)

/-- The bags after a call. A bag that was not made cannot be changed, and there
is nothing to merge from it. -/
def perform (bags : List Bag) : Call → List Bag
  | .new limit => bags ++ [new limit]
  | .add i d => bags.modify i fun b => b.add d
  | .merge i j =>
    match bags[j]? with
    | some other => bags.modify i fun b => b.merge other
    | none => bags
  | .filter i keep => bags.modify i fun b => b.filter keep
  | .sort i => bags.modify i sort
  | .dedup i => bags.modify i dedup

def run (calls : List Call) : List Bag :=
  calls.foldl perform []

theorem run_append (calls more : List Call) :
    run (calls ++ more) = more.foldl perform (run calls) :=
  List.foldl_append

/-- How the bags may change: each may change as a bag may, and further bags may
be made. -/
structure Grow (bags bags' : List Bag) : Prop where
  sound : (∀ b ∈ bags, Sound b) → ∀ b ∈ bags', Sound b
  limit_le : ∀ (i : Nat) (b : Bag), bags[i]? = some b → ∃ b', bags'[i]? =
    some b' ∧ b.limit ≤ b'.limit

theorem Grow.refl (bags : List Bag) :
    Grow bags bags :=
  ⟨id, fun _ b hb => ⟨b, hb, Nat.le_refl _⟩⟩

theorem Grow.trans {bags' bags'' : List Bag} (h : Grow bags bags')
    (h' : Grow bags' bags'') :
    Grow bags bags'' := by
  refine ⟨h'.sound ∘ h.sound, ?_⟩
  intro i b hb
  obtain ⟨b', hb', hle⟩ := h.limit_le i b hb
  obtain ⟨b'', hb'', hle'⟩ := h'.limit_le i b' hb'
  exact ⟨b'', hb'', Nat.le_trans hle hle'⟩

theorem grow_modify
    {change : Bag → Bag} (h : ∀ b, Evolves b (change b)) (bags : List Bag)
    (i : Nat) :
    Grow bags (bags.modify i change) := by
  constructor
  case sound =>
    intro hbags b hb
    obtain ⟨k, hk⟩ := List.mem_iff_getElem?.1 hb
    rw [List.getElem?_modify] at hk
    obtain ⟨c, hc, rfl⟩ := Option.map_eq_some_iff.1 hk
    have hsound := hbags c (List.mem_of_getElem? hc)
    split
    · exact (h c).sound hsound
    · exact hsound
  case limit_le =>
    intro k b hb
    rw [List.getElem?_modify, hb]
    refine ⟨_, rfl, ?_⟩
    split
    · exact (h b).limit_le
    · exact Nat.le_refl _

theorem grow_new (bags : List Bag) (limit : Int) :
    Grow bags (bags ++ [new limit]) := by
  constructor
  case sound =>
    intro hbags b hb
    rcases List.mem_append.1 hb with hb | hb
    · exact hbags b hb
    · rw [List.mem_singleton.1 hb]
      exact sound_new limit
  case limit_le =>
    intro i b hb
    refine ⟨b, ?_, Nat.le_refl _⟩
    rw [List.getElem?_append_left (List.getElem?_eq_some_iff.1 hb).1, hb]

theorem grow_perform (bags : List Bag) (call : Call) :
    Grow bags (perform bags call) := by
  cases call with
  | new limit => exact grow_new bags limit
  | add i d => exact grow_modify (fun b => evolves_add b d) bags i
  | merge i j =>
    dsimp only [perform]
    split
    next other _ => exact grow_modify (fun b => evolves_merge b other) bags i
    next => exact Grow.refl bags
  | filter i keep => exact grow_modify (fun b => evolves_filter b keep) bags i
  | sort i => exact grow_modify evolves_sort bags i
  | dedup i => exact grow_modify evolves_dedup bags i

theorem grow_foldl (bags : List Bag) (calls : List Call) :
    Grow bags (calls.foldl perform bags) := by
  induction calls generalizing bags with
  | nil => exact Grow.refl bags
  | cons call calls ih =>
    exact (grow_perform bags call).trans (ih (perform bags call))

theorem sound_of_mem_run {calls : List Call} (h : b ∈ run calls) :
    Sound b :=
  (grow_foldl [] calls).sound (by simp) b h

/-! ## One bag of many -/

theorem modify_eq_set (h : bags[i]? = some b) (change : Bag → Bag) :
    bags.modify i change = bags.set i (change b) := by
  rw [List.modify_eq_set, h, Option.getD_some]

theorem set_eq_self (h : bags[i]? = some b) :
    bags.set i b = bags := by
  obtain ⟨hi, rfl⟩ := List.getElem?_eq_some_iff.1 h
  exact List.set_getElem_self hi

theorem perform_merge {j : Nat} {other : Bag} (hb : bags[i]? = some b)
    (hother : bags[j]? = some other) :
    perform bags (.merge i j) = bags.set i (b.merge other) := by
  dsimp only [perform]
  rw [hother]
  exact modify_eq_set hb _

theorem foldl_merge (hb : bags[i]? = some b) {js : List Nat} {others : List Bag}
    (hothers : js.map (fun j => bags[j]?) = others.map some) (hi : i ∉ js) :
    (js.map (Call.merge i)).foldl perform bags =
      bags.set i (Compilation.mergeBags b others) := by
  induction js generalizing bags b others with
  | nil =>
    obtain rfl : others = [] := List.map_eq_nil_iff.1 hothers.symm
    exact (set_eq_self hb).symm
  | cons j js ih =>
    cases others with
    | nil => cases hothers
    | cons other others =>
      obtain ⟨hother, hrest⟩ := List.cons.inj hothers
      have hjs : i ∉ js := fun hmem => hi (List.mem_cons_of_mem j hmem)
      have hmerged : (bags.set i (b.merge other))[i]? = some (b.merge other) :=
        List.getElem?_set_self (List.getElem?_eq_some_iff.1 hb).1
      -- The bags that are still to come are as they were.
      have hkept : js.map (fun k => (bags.set i (b.merge other))[k]?) =
          others.map some := by
        rw [← hrest]
        apply List.map_congr_left
        intro k hk
        have hne : i ≠ k := fun heq => hjs (heq ▸ hk)
        exact List.getElem?_set_ne hne
      rw [List.map_cons, List.foldl_cons, perform_merge hb hother,
        ih hmerged hkept hjs, List.set_set]
      rfl

/-- What holds of the bags after a run of calls, whatever the calls were. -/
structure KeepsLimits (calls : List Call) : Prop where
  sound : ∀ b ∈ run calls, 1 ≤ b.limit ∧ b.limit ≤ 65535 ∧ b.size ≤ b.limit
  limit_le : ∀ (more : List Call) (i : Nat) (b : Bag), (run calls)[i]? =
    some b →
    ∃ b', (run (calls ++ more))[i]? = some b' ∧ b.limit ≤ b'.limit
  /-- A diagnostic is taken and added at the end if there is room. Otherwise it
  is refused and nothing changes. -/
  add : ∀ (i : Nat) (b : Bag) (d : Diagnostic), (run calls)[i]? = some b →
    b.hasRoom = true ∧ (b.offer d).1 = true ∧
        run (calls ++ [.add i d]) =
          (run calls).set i { b with items := b.items.push d } ∨
      b.hasRoom = false ∧ (b.offer d).1 = false ∧
        run (calls ++ [.add i d]) = run calls
  /-- Of two bags, one of which is merged into the other or into itself, the
  first diagnostics are kept. -/
  merge : ∀ (i j : Nat) (b other : Bag), (run calls)[i]? = some b →
    (run calls)[j]? = some other →
    run (calls ++ [.merge i j]) = (run calls).set i (b.merge other) ∧
      (b.merge other).items.toList =
      (b.items.toList ++ other.items.toList).take 65535
  /-- Of many bags the first diagnostics are kept as well, whatever their limits
  are. -/
  mergeAll : ∀ (i : Nat) (js : List Nat) (b : Bag) (others : List Bag),
    (run calls)[i]? = some b →
    js.map (fun j => (run calls)[j]?) = others.map some → i ∉ js →
    run (calls ++ js.map (.merge i)) =
    (run calls).set i (Compilation.mergeBags b others) ∧
      (Compilation.mergeBags b others).items.toList =
        (b.items.toList ++ others.flatMap fun o => o.items.toList).take 65535

/-- Bags stay within their limits throughout a run, and keep what limits up to
the largest one allow. -/
theorem keepsLimits_run (calls : List Call) :
    KeepsLimits calls := by
  constructor
  case sound =>
    intro b hb
    have hsound := sound_of_mem_run hb
    exact ⟨hsound.limit_pos, hsound.limit_le, hsound.size_le⟩
  case limit_le =>
    intro more i b hb
    rw [run_append]
    exact (grow_foldl (run calls) more).limit_le i b hb
  case add =>
    intro i b d hb
    have hadd : run (calls ++ [.add i d]) = (run calls).set i (b.add d) := by
      rw [run_append]
      exact modify_eq_set hb _
    cases hroom : b.hasRoom with
    | true =>
      refine .inl ⟨rfl, by rw [offer_eq_push hroom], ?_⟩
      rw [hadd, add_eq_push hroom]
    | false =>
      refine .inr ⟨rfl, by rw [offer_eq_self hroom], ?_⟩
      rw [hadd, add_eq_self hroom, set_eq_self hb]
  case merge =>
    intro i j b other hb hother
    have hsound := sound_of_mem_run (List.mem_of_getElem? hb)
    refine ⟨?_, hsound.toList_merge other⟩
    rw [run_append]
    exact perform_merge hb hother
  case mergeAll =>
    intro i js b others hb hothers hi
    have hsound := sound_of_mem_run (List.mem_of_getElem? hb)
    refine ⟨?_, (hsound.toList_mergeBags others).2⟩
    rw [run_append]
    exact foldl_merge hb hothers hi

/-- A bag that is filled beyond its limit and takes in another one and then
itself. -/
def overfilled : List Call :=
  let report (message : Text) : Diagnostic := { message }
  [ .new 2, .add 0 (report "a"), .add 0 (report "b"), .add 0 (report "c"),
    .new 0, .add 1 (report "d"), .merge 0 1, .merge 0 0 ]

theorem keepsLimits_overfilled :
    KeepsLimits overfilled ∧
      (run overfilled).map
      (fun b => (b.limit, b.items.toList.map Diagnostic.message)) =
        [(6, ["a", "b", "d", "a", "b", "d"].map Text.ofString),
        (65535, [Text.ofString "d"])] :=
  ⟨keepsLimits_run overfilled, by decide +kernel⟩

end Bag

end ProtocolCorpus
