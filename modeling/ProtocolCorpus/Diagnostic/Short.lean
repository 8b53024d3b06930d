import ProtocolCorpus.Diagnostic.Place

/-!
# Short diagnostics

One line for each diagnostic, candidate and note, without colours, for logs and
comparisons.
-/

namespace ProtocolCorpus

namespace Diagnostic

/-- The place of a span, with the path below the base directory. -/
def location (files : Option Source.Files) (span : Span) : Text :=
  Places.describe { files, mode := .relative } span

/-- A message on one line: line ends of all kinds become blanks, and the ends
are trimmed. -/
def oneLine (message : Text) : Text :=
  Text.trim
    (((Text.foldReturns message).map fun b => if b = 0x0D ∨ b = 0x0A then 0x20
    else b))

def candidateLine (c : Candidate) : Text :=
  "\n  candidate protocol=" ++ c.protocol ++ " module=" ++ c.module ++
    " import=" ++ c.importPath
    ++ " source=" ++ c.source

def noteLine (files : Option Source.Files) (n : Note) : Text :=
  "\n  note " ++ location files n.span ++ " " ++ oneLine n.message

def short (files : Option Source.Files) (withNotes : Bool)
    (d : Diagnostic) : Text :=
  d.severity.label ++ " " ++ d.code.id ++ " " ++ location files d.span
    ++ (if d.coordinates.isZero then [] else " " ++ d.coordinates.describe)
    ++ " " ++ oneLine d.message
    ++ d.candidates.flatMap candidateLine
    ++ (if withNotes then d.notes.flatMap (noteLine files) else [])

/-- The lines of all diagnostics, without a line end behind the last. -/
def shortAll (files : Option Source.Files) (withNotes : Bool)
    (ds : List Diagnostic) : Text :=
  Text.join "\n" (ds.map (short files withNotes))

end Diagnostic

end ProtocolCorpus
