import ProtocolCorpus.Text.Width

/-!
# Tables

Rows of cells in a frame of lines. A column is as wide as its widest cell, with
a blank on both sides.
-/

namespace ProtocolCorpus

namespace Terminal

structure Table where
  headers : List Text
  rows : List (List Text) := []
  deriving DecidableEq, Repr

namespace Table

/-- A cell as it is shown: four blanks stand for a tabulator. -/
def shown (cell : Text) : Text :=
  cell.flatMap fun b => if b = 0x09 then Text.blanks 4 else [b]

def widths (t : Table) : List Nat :=
  t.rows.foldl
    (fun ws row =>
    List.zipWith (fun w cell => max w (Text.width (shown cell))) ws row)
    (t.headers.map fun h => Text.width (shown h))

def rule (left middle right : Text) (ws : List Nat) : Text :=
  left ++ Text.join middle
    (ws.map fun w => (List.replicate (w + 2) ("─" : Text)).flatten) ++
    right ++ "\n"

def line (ws : List Nat) (cells : List Text) : Text :=
  "│" ++ Text.join "│" (List.zipWith (fun w cell =>
    " " ++ shown cell ++ Text.blanks (w - Text.width (shown cell)) ++ " ") ws
    cells) ++ "│\n"

def render (t : Table) : Text :=
  let ws := t.widths
  rule "┌" "┬" "┐" ws ++ line ws t.headers ++ rule "├" "┼" "┤" ws ++
    t.rows.flatMap (line ws)
    ++ rule "└" "┴" "┘" ws

end Table

end Terminal

end ProtocolCorpus
