import ProtocolCorpus.Text.Width

/-!
# Tabs and cut lines

A line is shown with its tabs replaced by blanks, so that what stands below it
can be aligned by counting cells, and a line that is too wide is cut.
-/

namespace ProtocolCorpus

namespace Text

def tabStop : Nat := 4

/-- The blanks a tab stands for when so many cells are taken: as many as reach
the next tab stop. -/
def tabBlanks (cells : Nat) : Nat :=
  tabStop - cells % tabStop

/-- The characters of a line with blanks for tabs, when so many cells are taken
before them. -/
def expandFrom (cells : Nat) : List Scalar → Text
  | [] => []
  | s :: rest =>
    if s.code = 0x09 then
      blanks (tabBlanks cells) ++ expandFrom (cells + tabBlanks cells) rest
    else s.repaired ++ expandFrom (cells + codeWidth s.code) rest

/-- A line with blanks for tabs. A line without tabs stays as it is; in any
other, stray bytes become replacement characters. -/
def expandTabs (line : Text) : Text :=
  if List.contains line 0x09 then expandFrom 0 (scalars line) else line

/-- The clusters that fit into so many cells, up to the first that does not. -/
def fitting (room : Nat) : List (List Scalar) → List (List Scalar)
  | [] => []
  | c :: cs =>
  if clusterWidth c ≤ room then c :: fitting (room - clusterWidth c) cs else []

/-- The text if it fits into so many cells, else what fits beside the tail, and
the tail. -/
def truncate (cells : Nat) (tail t : Text) : Text :=
  if width t ≤ cells then t
  else (fitting (cells - width tail) (clusters t)).flatMap ofScalars ++ tail

end Text

end ProtocolCorpus
