import ProtocolCorpus.Text.Basic

/-!
# Timers

A timer holds the phases of a run. A phase is either begun and ended once, or it
collects what several workers observe under its name. Durations are nanoseconds
in a word of 64 bits, and sums wrap.
-/

namespace ProtocolCorpus

namespace Timing

structure Phase where
  name : Text
  elapsed : Int64 := 0
  longest : Int64 := 0
  /-- How often the phase was ended or observed. -/
  count : Nat := 0
  note : Text := []
  deriving Repr, Inhabited

/-- The phases of a run, in the order they were begun or first observed. -/
structure Timer where
  phases : Array Phase := #[]
  deriving Inhabited

namespace Timer

def start (t : Timer) (name : Text) : Timer × Nat :=
  ({ phases := t.phases.push { name } }, t.phases.size)

/-- The phase with an index ends after the given time; an index without a phase
is ignored. -/
def finish (t : Timer) (index : Nat) (elapsed : Int64) (note : Text) : Timer :=
  { phases := t.phases.modify index fun p =>
      { p with
        elapsed, longest := max p.longest elapsed, count :=
        p.count + 1, note } }

/-- The phase with an index took the given time; an index without a phase is
ignored. -/
def charge (t : Timer) (index : Nat) (elapsed : Int64) : Timer :=
  { phases := t.phases.modify index fun p => { p with
      elapsed, longest := max p.longest elapsed } }

def latest? (t : Timer) (name : Text) : Option Nat :=
  (t.phases.toList.reverse.findIdx? fun p => p.name == name).map fun i =>
    t.phases.size - 1 - i

/-- One observation is added to the latest phase of that name, which is made if
it is not there. -/
def observe (t : Timer) (name : Text) (elapsed : Int64) : Timer :=
  let (t, index) := match t.latest? name with
    | some i => (t, i)
    | none => t.start name
  { phases := t.phases.modify index fun p =>
      { p with
        elapsed := p.elapsed + elapsed, longest :=
          max p.longest elapsed, count := p.count + 1 } }

/-- The time of all phases together. What was observed more than once overlaps
other phases and does not count. -/
def total (t : Timer) : Int64 :=
  (t.phases.toList.filter fun p => p.count ≤ 1).foldl
    (fun sum p => sum + p.elapsed) 0

end Timer

end Timing

end ProtocolCorpus
