import Mathlib.Data.List.Perm.Basic
import ProtocolCorpus.Resolution.Cascade

/-!
# What narrowing leaves

Questions are asked while more than one declaration is left. To ask on would
change nothing, so narrowing is the plain cascade that asks every question.
Which declarations it leaves depends on which there are, and not on their order:
one predicate picks them from a row and from all rearrangements of the row.
-/

namespace ProtocolCorpus

namespace NarrowingStep

/-- The numbers without a question of their own. -/
theorem ofNumber_eq_always_iff {n : Nat} :
    ofNumber n = .always ↔ n = 0 ∨ 4 < n := by
  rcases n with _ | _ | _ | _ | _ | n
  all_goals simp [ofNumber]

end NarrowingStep

namespace Resolution

variable {owners : List Owner}

/-! ## One question -/

/-- A declaration is left by a question if it passes, or if no declaration
passes. The latter can be asked of any rearrangement of the row. -/
theorem narrowBy_eq_filter {owners' : List Owner} (h : owners'.Perm owners)
    (q : Query) (step : NarrowingStep) :
    narrowBy q owners' step =
      owners'.filter fun o => step.keeps q o || !owners.any fun p =>
        step.keeps q p := by
  rw [← h.any_eq]
  cases hany : owners'.any fun p => step.keeps q p with
  | true =>
    have hkept : (owners'.filter fun o => step.keeps q o) ≠ [] := by
      simpa using hany
    simp [narrowBy, hkept]
  | false =>
    have hkept : (owners'.filter fun o => step.keeps q o) = [] := by
      simpa using hany
    simp [narrowBy, hkept]

theorem narrowBy_ne_nil (h : owners ≠ []) (q : Query) (step : NarrowingStep) :
    narrowBy q owners step ≠ [] := by
  unfold narrowBy
  dsimp only
  split
  next => exact h
  next hkept => simpa using hkept

theorem narrowBy_always (q : Query) (owners : List Owner) :
    narrowBy q owners .always = owners := by
  rw [narrowBy_eq_filter (List.Perm.refl owners)]
  exact List.filter_eq_self.2 fun _ _ => rfl

/-- A single declaration is left by every question. -/
theorem narrowBy_of_length_le_one (h : owners.length ≤ 1) (q : Query)
    (step : NarrowingStep) :
    narrowBy q owners step = owners := by
  rcases owners with _ | ⟨o, _ | ⟨p, rest⟩⟩
  · rfl
  · rw [narrowBy_eq_filter (List.Perm.refl [o]), List.filter_eq_self]
    simp
  · simp at h

/-! ## The cascade -/

theorem foldl_narrowBy_of_length_le_one (h : owners.length ≤ 1) (q : Query)
    (steps : List NarrowingStep) :
    steps.foldl (narrowBy q) owners = owners := by
  induction steps with
  | nil => rfl
  | cons step steps ih => rw [List.foldl_cons, narrowBy_of_length_le_one h, ih]

/-- Narrowing asks every question, as far as can be seen from what is left. -/
theorem narrow_eq_foldl (q : Query) (owners : List Owner)
    (steps : List NarrowingStep) :
    narrow q owners steps = steps.foldl (narrowBy q) owners := by
  induction steps generalizing owners with
  | nil => rfl
  | cons step steps ih =>
    rw [narrow]
    split
    next hone => rw [foldl_narrowBy_of_length_le_one hone]
    next => rw [ih, List.foldl_cons]

theorem narrow_append (q : Query) (owners : List Owner)
    (steps more : List NarrowingStep) :
    narrow q owners (steps ++ more) =
      narrow q (narrow q owners steps) more := by
  simp only [narrow_eq_foldl, List.foldl_append]

theorem narrow_ne_nil (h : owners ≠ []) (q : Query)
    (steps : List NarrowingStep) :
    narrow q owners steps ≠ [] := by
  rw [narrow_eq_foldl]
  induction steps generalizing owners with
  | nil => exact h
  | cons step steps ih => exact ih (narrowBy_ne_nil h q step)

/-- What is left of a row and of all its rearrangements is told by one
predicate. -/
theorem exists_narrow_eq_filter (q : Query) (owners : List Owner)
    (steps : List NarrowingStep) :
    ∃ survives : Owner → Bool, ∀ owners', owners'.Perm owners →
      narrow q owners' steps = owners'.filter survives := by
  simp only [narrow_eq_foldl]
  induction steps generalizing owners with
  | nil =>
    exact ⟨fun _ => true, fun owners' _ =>
      (List.filter_eq_self.2 fun _ _ => rfl).symm⟩
  | cons step steps ih =>
    obtain ⟨later, hlater⟩ := ih (narrowBy q owners step)
    refine ⟨fun o => later o &&
      (step.keeps q o || !owners.any fun p => step.keeps q p), ?_⟩
    intro owners' hperm
    have hfirst := narrowBy_eq_filter hperm q step
    -- What the first question leaves of the two rows is again the same up to
    -- order.
    have hleft : (narrowBy q owners' step).Perm (narrowBy q owners step) := by
      rw [hfirst, narrowBy_eq_filter (List.Perm.refl owners)]
      exact hperm.filter _
    rw [List.foldl_cons, hlater _ hleft, hfirst, List.filter_filter]

theorem narrow_sublist (q : Query) (owners : List Owner)
    (steps : List NarrowingStep) :
    (narrow q owners steps).Sublist owners := by
  obtain ⟨survives, hsurvives⟩ := exists_narrow_eq_filter q owners steps
  rw [hsurvives owners (List.Perm.refl owners)]
  exact List.filter_sublist

/-- What the questions `steps` have to leave of a row of declarations. -/
structure PlainCascade (q : Query) (owners : List Owner)
    (steps : List NarrowingStep) (left : List Owner) :
    Prop where
  /-- Every question is asked, and keeps what passes unless nothing does. -/
  eq_foldl : left = steps.foldl (fun row step =>
    if (row.filter fun o => step.keeps q o) = [] then row
    else row.filter fun o => step.keeps q o) owners
  sublist : left.Sublist owners
  nonempty : owners ≠ [] → left ≠ []
  /-- Further questions leave no other declarations. -/
  shrinks : ∀ more, (narrow q owners (steps ++ more)).Sublist left
  /-- The order of the declarations does not decide which of them are left. -/
  survivors : ∃ survives : Owner → Bool, left = owners.filter survives ∧
    ∀ owners', owners'.Perm owners → narrow q owners' steps =
    owners'.filter survives
  perm : ∀ owners', owners'.Perm owners → (narrow q owners' steps).Perm left
  /-- A number without a question of its own can be left out. -/
  unknown : ∀ before after n, n = 0 ∨ 4 < n →
    steps = before ++ .ofNumber n :: after →
    narrow q owners (before ++ after) = left

theorem plainCascade_narrow (q : Query) (owners : List Owner)
    (steps : List NarrowingStep) :
    PlainCascade q owners steps (narrow q owners steps) := by
  obtain ⟨survives, hsurvives⟩ := exists_narrow_eq_filter q owners steps
  have hself := hsurvives owners (List.Perm.refl owners)
  constructor
  case eq_foldl =>
    rw [narrow_eq_foldl]
    congr
    funext row step
    simp only [narrowBy, List.isEmpty_iff]
  case sublist => exact narrow_sublist q owners steps
  case nonempty => exact fun h => narrow_ne_nil h q steps
  case shrinks =>
    intro more
    rw [narrow_append]
    exact narrow_sublist q _ more
  case survivors => exact ⟨survives, hself, hsurvives⟩
  case perm =>
    intro owners' hperm
    rw [hsurvives owners' hperm, hself]
    exact hperm.filter survives
  case unknown =>
    rintro before after n hn rfl
    rw [NarrowingStep.ofNumber_eq_always_iff.2 hn]
    simp only [narrow_eq_foldl, List.foldl_append, List.foldl_cons,
      narrowBy_always]

end Resolution

end ProtocolCorpus
