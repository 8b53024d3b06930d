import ProtocolCorpus.Text.Basic

/-!
# Rings

A ring has a fixed number of slots and keeps the latest values: a new value
takes the slot of the oldest one when all are taken. Both the slot to write and
the slots to read follow from the number of values ever stored.
-/

namespace ProtocolCorpus

namespace Trace

structure Ring (α : Type) where
  slots : Array α
  /-- The number of values ever stored, in a word of 64 bits. -/
  total : UInt64 := 0

namespace Ring

def defaultCapacity : Nat := 4096

def slotCount (capacity : Int) : Nat :=
  if 0 < capacity then capacity.toNat else defaultCapacity

def new {α : Type} [Inhabited α] (capacity : Int) : Ring α :=
  { slots := Array.replicate (slotCount capacity) default }

def push {α : Type} (r : Ring α) (a : α) : Ring α :=
  { slots := r.slots.setIfInBounds (r.total.toNat % r.slots.size) a,
    total := r.total + 1 }

def size {α : Type} (r : Ring α) : Nat :=
  min r.total.toNat r.slots.size

/-- The values that are kept, the oldest first. -/
def toList {α : Type} (r : Ring α) : List α :=
  (List.range r.size).filterMap fun i =>
    r.slots[(r.total.toNat - r.size + i) % r.slots.size]?

end Ring

end Trace

end ProtocolCorpus
