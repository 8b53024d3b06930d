import ProtocolCorpus.Compilation.Basic

/-!
# What bags keep

A bag keeps the diagnostics it is given up to its limit. Bags that are merged
one after the other keep the diagnostics of all of them up to the largest limit
there is, so every list of findings has a place of its own in the result, and
`room` says how much of it is there.
-/

namespace ProtocolCorpus

namespace Bag

variable {b : Bag}

/-- The bag is within its limit, and the limit is one that a bag can have. -/
structure Sound (b : Bag) : Prop where
  limit_pos : 0 < b.limit
  limit_le : b.limit ≤ maxLimit
  size_le : b.size ≤ b.limit

theorem sound_new (limit : Int) :
    Sound (new limit) := by
  constructor
  case limit_pos =>
    unfold new
    dsimp only
    split
    next => decide
    next h => omega
  case limit_le =>
    unfold new
    dsimp only
    split
    next => exact Nat.le_refl maxLimit
    next h => omega
  case size_le => exact Nat.zero_le _

theorem offer_eq_push (h : b.hasRoom = true) (d : Diagnostic) :
    b.offer d = (true, { b with items := b.items.push d }) :=
  if_pos h

theorem offer_eq_self (h : b.hasRoom = false) (d : Diagnostic) :
    b.offer d = (false, b) := by
  rw [offer, h]
  rfl

theorem add_eq_push (h : b.hasRoom = true) (d : Diagnostic) :
    b.add d = { b with items := b.items.push d } := by
  rw [add, offer_eq_push h]

theorem add_eq_self (h : b.hasRoom = false) (d : Diagnostic) :
    b.add d = b := by
  rw [add, offer_eq_self h]

@[simp] theorem limit_add (b : Bag) (d : Diagnostic) :
    (b.add d).limit = b.limit := by
  cases hroom : b.hasRoom with
  | true => rw [add_eq_push hroom]
  | false => rw [add_eq_self hroom]

@[simp] theorem limit_addAll (b : Bag) (ds : List Diagnostic) :
    (b.addAll ds).limit = b.limit := by
  induction ds generalizing b with
  | nil => rfl
  | cons d ds ih => exact (ih (b.add d)).trans (limit_add b d)

/-- A bag takes the first diagnostics, as many as there is room for. -/
theorem toList_addAll (b : Bag) (ds : List Diagnostic) :
    (b.addAll ds).items.toList =
    b.items.toList ++ ds.take (b.limit - b.size) := by
  induction ds generalizing b with
  | nil => simp [addAll]
  | cons d ds ih =>
    change ((b.add d).addAll ds).items.toList = _
    rw [ih (b.add d)]
    cases hroom : b.hasRoom with
    | false =>
      have hfull : b.limit - b.size = 0 := by
        have hle : ¬ b.items.size < b.limit := by simpa [hasRoom] using hroom
        exact Nat.sub_eq_zero_of_le (Nat.le_of_not_lt hle)
      simp [add_eq_self hroom, hfull]
    | true =>
      have hlt : b.items.size < b.limit := by simpa [hasRoom] using hroom
      have hsucc : b.limit - b.items.size = (b.limit - (b.items.size + 1)) +
        1 := by omega
      simp [add_eq_push hroom, size, hsucc]

theorem toList_addAll_new (limit : Int) (ds : List Diagnostic) :
    ((new limit).addAll ds).items.toList = ds.take (new limit).limit := by
  rw [toList_addAll]
  rfl

theorem hasErrors_eq_any (b : Bag) :
    b.hasErrors = b.items.toList.any Diagnostic.isError := by
  rw [Bool.eq_iff_iff, hasErrors, countFrom, ← Array.countP_toList,
    decide_eq_true_iff, List.countP_pos_iff, List.any_eq_true]
  rfl

theorem hasErrors_add {d : Diagnostic} (h : b.hasErrors = true) :
    (b.add d).hasErrors = true := by
  rw [hasErrors_eq_any] at h ⊢
  cases hroom : b.hasRoom with
  | true => simp [add_eq_push hroom, h]
  | false =>
    rw [add_eq_self hroom]
    exact h

/-! ## Merging -/

/-- The bag keeps the first diagnostics of both, up to the largest limit. -/
theorem Sound.toList_merge (hb : Sound b) (other : Bag) :
    (b.merge other).items.toList =
    (b.items.toList ++ other.items.toList).take maxLimit := by
  have hlimit := hb.limit_le
  have hsize : b.items.size ≤ b.limit := hb.size_le
  have hown : b.items.toList.take maxLimit = b.items.toList := by
    apply List.take_of_length_le
    rw [Array.length_toList]
    exact Nat.le_trans hsize hlimit
  rw [merge, toList_addAll, List.take_append, hown, Array.length_toList]
  dsimp only [size]
  by_cases hfits : b.items.size + other.items.size ≤ maxLimit
  · have hlength : other.items.toList.length ≤ maxLimit - b.items.size := by
      rw [Array.length_toList]
      omega
    rw [List.take_of_length_le hlength, List.take_of_length_le]
    rw [Array.length_toList]
    omega
  · have hroom : max b.limit (min (b.items.size + other.items.size) maxLimit) =
      maxLimit := by omega
    rw [hroom]

theorem Sound.merge (hb : Sound b) (other : Bag) :
    Sound (b.merge other) := by
  have hpos := hb.limit_pos
  have hlimit := hb.limit_le
  have hsize : b.items.size ≤ b.limit := hb.size_le
  constructor
  case limit_pos =>
    rw [Bag.merge, limit_addAll]
    dsimp only
    omega
  case limit_le =>
    rw [Bag.merge, limit_addAll]
    dsimp only
    omega
  case size_le =>
    have hlength := congrArg List.length (hb.toList_merge other)
    rw [List.length_take, List.length_append] at hlength
    simp only [Array.length_toList] at hlength
    rw [size, hlength, Bag.merge, limit_addAll]
    dsimp only
    omega

theorem take_take_append
    {α : Type} (n : Nat) (xs ys : List α) :
    (xs.take n ++ ys).take n = (xs ++ ys).take n := by
  have hrest : n - min n xs.length = n - xs.length := by omega
  rw [List.take_append, List.take_append, List.take_take, List.length_take,
    Nat.min_self, hrest]

/-- Bags that are merged one after the other keep the first diagnostics of all
of them. -/
theorem Sound.toList_mergeBags (hb : Sound b) (bags : List Bag) :
    Sound (Compilation.mergeBags b bags) ∧
      (Compilation.mergeBags b bags).items.toList =
        (b.items.toList ++ bags.flatMap fun bag => bag.items.toList).take
        maxLimit := by
  induction bags generalizing b with
  | nil =>
    have hlength : b.items.toList.length ≤ maxLimit := by
      rw [Array.length_toList]
      exact Nat.le_trans hb.size_le hb.limit_le
    refine ⟨hb, ?_⟩
    rw [List.flatMap_nil, List.append_nil, List.take_of_length_le hlength]
    rfl
  | cons bag bags ih =>
    obtain ⟨hsound, hitems⟩ := ih (hb.merge bag)
    refine ⟨hsound, ?_⟩
    change (Compilation.mergeBags (b.merge bag) bags).items.toList = _
    rw [hitems, hb.toList_merge, List.flatMap_cons, ← List.append_assoc,
      take_take_append]

/-! ## The place of one list among many -/

/-- How much of a list of findings is kept behind other lists, when every list
is cut at `limit` and all of them together at the largest limit. -/
def room (limit : Nat) (before : List (List Diagnostic)) : Nat :=
  min limit (maxLimit - (before.flatMap (List.take limit)).length)

theorem mem_take_of_mem_room
    {limit : Nat} {before after : List (List Diagnostic)} {ds : List Diagnostic}
    {d : Diagnostic} (hd : d ∈ ds.take (room limit before)) :
    d ∈ ((before ++ ds :: after).flatMap (List.take limit)).take maxLimit := by
  rw [List.flatMap_append, List.flatMap_cons, List.take_append]
  apply List.mem_append_right
  rw [List.take_append, List.take_take, Nat.min_comm]
  exact List.mem_append_left _ hd

end Bag

end ProtocolCorpus
