import ProtocolCorpus.Text.Basic

/-!
# Distances between words

The distance of two words is the number of bytes to insert, delete or replace
that lead from one to the other.
-/

namespace ProtocolCorpus

namespace Text

/-- The rest of a row of the table of distances, from the row above it. `left`
is the cell before, and `a` the byte that the row adds to the first word. -/
def distanceRow (a : UInt8) (left : Nat) : (above : List Nat) →
    (word : Text) → List Nat
  | diagonal :: up :: above, b :: word =>
    let d := if a = b then diagonal else min (min up left) diagonal + 1
    d :: distanceRow a d (up :: above) word
  | _, _ => []

/-- The row below a row of the table. -/
def nextDistances (word : Text) (above : List Nat) (a : UInt8) : List Nat :=
  let left := above.headD 0 + 1
  left :: distanceRow a left above word

def distance (s t : Text) : Nat :=
  ((s.foldl (nextDistances t) (List.range (t.length + 1))).getLast?).getD 0

end Text

end ProtocolCorpus
