import Mathlib.Data.List.DropRight
import Mathlib.Data.Nat.ModEq
import ProtocolCorpus.Trace.Tracer

/-!
# What a ring keeps

A value is written to the slot of its number, modulo the number of slots, and so
overwrites the value that many slots before it. Of a row of values, each of the
last ones therefore still stands in the slot of its own number, and reading
these slots in order gives the tail of the row. The counter is a word of 64
bits; the slots follow the row as long as it does not wrap.
-/

namespace ProtocolCorpus

namespace Trace

namespace Ring

variable {α : Type} {n : Nat} {r : Ring α} {row : List α}

/-- The ring has `n` slots and has stored the row; each of the last `n` values
of the row stands in the slot of its number. -/
structure Holds (r : Ring α) (n : Nat) (row : List α) : Prop where
  slots_size : r.slots.size = n
  total_eq : r.total.toNat = row.length
  slot_eq : ∀ i, i < row.length → row.length ≤ i + n → r.slots[i % n]? = row[i]?

theorem slotCount_pos (capacity : Int) :
    0 < slotCount capacity := by
  rw [slotCount]
  split
  · omega
  · decide

theorem holds_new [Inhabited α] (capacity : Int) :
    Holds (new capacity) (slotCount capacity) ([] : List α) where
  slots_size := Array.size_replicate
  total_eq := rfl
  slot_eq := by
    intro i hi
    cases hi

/-- Two numbers less than one round apart have different slots. -/
theorem mod_ne_mod_of_lt_add {i k : Nat} (hik : i < k) (hki : k < i + n) :
    k % n ≠ i % n := by
  intro heq
  have hdvd : n ∣ k - i := (Nat.modEq_iff_dvd' hik.le).1 heq.symm
  have hle : n ≤ k - i := Nat.le_of_dvd (by omega) hdvd
  omega

/-- One more value takes the slot of its number; the only value it overwrites is
no longer among the last. -/
theorem Holds.push (h : Holds r n row) (hn : 0 < n)
    (hlength : row.length + 1 < 2 ^ 64) (a : α) :
    Holds (r.push a) n (row ++ [a]) := by
  constructor
  case slots_size => rw [Ring.push, Array.size_setIfInBounds, h.slots_size]
  case total_eq =>
    rw [Ring.push, UInt64.toNat_add, h.total_eq, List.length_append]
    exact Nat.mod_eq_of_lt hlength
  case slot_eq =>
    intro i hi hlast
    rw [List.length_append, List.length_singleton] at hi hlast
    rw [Ring.push, h.total_eq, h.slots_size, Array.getElem?_setIfInBounds]
    -- Number `i` is that of the new value, or less than one round before it and
    -- so in another slot.
    by_cases hnew : i = row.length
    · have hslot : row.length % n < r.slots.size := by
        rw [h.slots_size]
        exact Nat.mod_lt _ hn
      rw [hnew, if_pos rfl, if_pos hslot, List.getElem?_concat_length]
    · have hold : i < row.length := by omega
      rw [if_neg (mod_ne_mod_of_lt_add hold (by omega)),
        List.getElem?_append_left hold]
      exact h.slot_eq i hold (by omega)

/-- The slots follow every row that the counter can count. -/
theorem holds_foldl_push [Inhabited α] (capacity : Int) (row : List α)
    (hlength : row.length < 2 ^ 64) :
    Holds (row.foldl push (new capacity)) (slotCount capacity) row := by
  induction row using List.reverseRecOn with
  | nil => exact holds_new capacity
  | append_singleton row a ih =>
    rw [List.length_append, List.length_singleton] at hlength
    rw [List.foldl_append, List.foldl_cons, List.foldl_nil]
    exact (ih (by omega)).push (slotCount_pos capacity) hlength a

theorem Holds.size_eq (h : Holds r n row) :
    r.size = min row.length n := by
  rw [size, h.total_eq, h.slots_size]

theorem filterMap_getElem?_range (row : List α) :
    ((List.range row.length).filterMap fun i => row[i]?) = row := by
  induction row with
  | nil => rfl
  | cons a row ih =>
    have hfirst : (a :: row)[0]? = some a := rfl
    rw [List.length_cons, List.range_succ_eq_map,
      List.filterMap_cons_some hfirst, List.filterMap_map]
    exact congrArg (a :: ·) ih

/-- Reading the slots from the oldest kept number on gives the tail of the row.
-/
theorem Holds.toList_eq (h : Holds r n row) :
    r.toList = row.rtake (min row.length n) := by
  have hkept : (row.rtake (min row.length n)).length = min row.length n := by
    rw [List.rtake, List.length_drop]
    omega
  have hslots : ∀ i ∈ List.range (min row.length n),
      r.slots[(row.length - min row.length n + i) % n]? =
      (row.rtake (min row.length n))[i]? := by
    intro i hi
    rw [List.mem_range] at hi
    rw [List.rtake, List.getElem?_drop]
    exact h.slot_eq _ (by omega) (by omega)
  rw [toList, h.total_eq, h.slots_size, h.size_eq, List.filterMap_congr hslots]
  calc
    (List.range (min row.length n)).filterMap
        (fun i => (row.rtake (min row.length n))[i]?)
        = (List.range (row.rtake (min row.length n)).length).filterMap
            (fun i => (row.rtake (min row.length n))[i]?) := by rw [hkept]
    _ = row.rtake (min row.length n) := filterMap_getElem?_range _

end Ring

namespace Tracer

/-- Every event goes into the ring, whatever the level of the tracer and the
scope of the event are. -/
theorem ring_foldl_emit (t : Tracer) (entries : List Entry) :
    (entries.foldl emit t).ring = t.ring.map fun r =>
    entries.foldl Ring.push r := by
  induction entries generalizing t with
  | nil => exact Option.map_id'.symm
  | cons e entries ih =>
    rw [List.foldl_cons, ih]
    exact Option.map_map _ _ _

/-- After any number of events that the counter can count, the ring of a tracer
shows the last of them in the order in which they came, as many as it has slots,
and its size is the number of events it shows. -/
theorem ring_keeps_tail
    {t : Tracer} {capacity : Int} (ht : t.ring = some (.new capacity))
    {entries : List Entry} (hlength : entries.length < 2 ^ 64) :
    ∃ r, (entries.foldl emit t).ring = some r ∧
      r.toList =
      entries.rtake
      (min entries.length (if 0 < capacity then capacity.toNat else 4096)) ∧
      r.size = r.toList.length := by
  have hholds := Ring.holds_foldl_push capacity entries hlength
  refine ⟨entries.foldl Ring.push (.new capacity), ?_, hholds.toList_eq, ?_⟩
  · rw [ring_foldl_emit, ht]
    rfl
  · rw [hholds.size_eq, hholds.toList_eq, List.rtake, List.length_drop]
    omega

/-- Four events, named in the order in which they come. -/
def fourEvents : List Entry :=
  [{ event := { name := "a" } }, { event := { name := "b" } },
    { event := { name := "c" } },
    { event := { name := "d" } }]

/-- A tracer with three slots that writes nothing forgets the first of four
events. -/
theorem ring_keeps_last_three :
    ∃ r, (fourEvents.foldl emit { ring := some (.new 3) }).ring = some r ∧
      r.toList = fourEvents.tail ∧ r.size = r.toList.length :=
  @ring_keeps_tail { ring := some (.new 3) } 3 rfl fourEvents (by decide)

end Tracer

end Trace

end ProtocolCorpus
