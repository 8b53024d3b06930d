import ProtocolCorpus.Diagnostic.Place
import ProtocolCorpus.Terminal.Style
import ProtocolCorpus.Text.Tab

/-!
# Diagnostics for readers

Each diagnostic is shown with its place, the line it points to with some lines
around it and carets below the span, and, where asked for, its coordinates,
candidates and notes.
-/

namespace ProtocolCorpus

namespace Diagnostic

/-- The diagnostic is about a choice between candidates, so they are always
shown. -/
def isAmbiguity (d : Diagnostic) : Bool :=
  d.code == .ambiguousInterface || d.code == .ambiguousEnumOwner

namespace Pretty

structure Options where
  colours : Bool := false
  /-- The lines shown before and after the one a diagnostic points to; none if
  negative. -/
  context : Int8 := 0
  /-- The cells a line may take; zero means any number. -/
  width : UInt8 := 0
  showNotes : Bool := false
  showCandidates : Bool := false
  showCoordinates : Bool := false

def severityStyle (s : Severity) : Terminal.Style :=
  ⟨some (if s == .error then .red else if s == .warning then .yellow
    else .cyan), true⟩

def codeStyle : Terminal.Style := ⟨none, true⟩

def gutterStyle : Terminal.Style := ⟨some .blue, false⟩

def caretStyle : Terminal.Style := ⟨some .red, true⟩

def noteStyle : Terminal.Style := ⟨some .green, false⟩

def bytesBefore (line : Text) (column : UInt32) : Nat :=
  min (column.toNat - 1) line.length

def cellsBefore (line : Text) (bytes : Nat) : Nat :=
  Text.width (Text.expandTabs (line.take bytes))

/-- Where the carets below a line start and how many cells they take: those of
the span's part on the line, but at least one. -/
def caretExtent (line : Text) (start stop : Position) : Nat × Nat :=
  let first := bytesBefore line start.column
  let last := if stop.line = start.line then bytesBefore line stop.column
    else line.length
  let pad := cellsBefore line first
  (pad, max (if first < last then cellsBefore line last - pad else 0) 1)

/-- A caret and tildes. -/
def underline (cells : Nat) : Text :=
  "^" ++ Text.fill (cells - 1) 0x7E

/-- The numbers of the lines shown around a line of a file with so many lines.
-/
def shownLines (context : Int8) (line total : Nat) : List Nat :=
  let around := context.toInt.toNat
  let first := line - min around (line - 1)
  let last := min (line + around) total
  (List.range (last + 1 - first)).map (first + ·)

def excerptLine (o : Options) (f : Source.File) (start stop : Position)
    (digits n : Nat) : Text :=
  let bar := gutterStyle.paint o.colours "|"
  let raw := f.line (UInt32.ofNat n)
  let shown := Text.expandTabs raw
  let shown := if o.width = 0 then shown
    else Text.truncate o.width.toNat "…" shown
  let numbered :=
    " " ++ gutterStyle.paint o.colours
      (Text.padLeft digits 0x20 (Text.ofNat n)) ++ " " ++ bar
    ++ " " ++ shown ++ "\n"
  if n = start.line.toNat then
    let (pad, cells) := caretExtent raw start stop
    numbered ++ " " ++ Text.blanks digits ++ " " ++ bar ++ " " ++
      Text.blanks pad
      ++ caretStyle.paint o.colours (underline cells) ++ "\n"
  else numbered

/-- The lines around a span; nothing if its file is unknown or empty. -/
def excerpt (o : Options) (p : Places) (span : Span) : Text :=
  match p.file? span with
  | none => []
  | some f =>
    let (start, stop) := p.resolve span
    if f.content.isEmpty then []
    else
      let ns := shownLines o.context start.line.toNat (f.newlines.length + 1)
      let digits := (Text.ofNat (ns.getLast?.getD 0)).length
      ns.flatMap (excerptLine o f start stop digits)

def candidateLine (o : Options) (c : Candidate) : Text :=
  "  " ++ noteStyle.paint o.colours "candidate:" ++ " protocol=" ++
    c.protocol ++ " module=" ++ c.module
    ++ " import=" ++ c.importPath ++ " source=" ++ c.source ++ "\n"

def noteLine (o : Options) (p : Places) (n : Note) : Text :=
  "  " ++ noteStyle.paint o.colours "note:" ++ " " ++ p.describe n.span ++
    ": " ++ n.message ++ "\n"

def one (o : Options) (p : Places) (d : Diagnostic) : Text :=
  p.describe d.span ++ ": " ++ (severityStyle d.severity).paint o.colours
    d.severity.name ++ " "
    ++ codeStyle.paint o.colours d.code.id ++ ": " ++ d.message ++ "\n"
    ++ (if o.showCoordinates && !d.coordinates.isZero then
          "  " ++ gutterStyle.paint o.colours "-->" ++ " " ++
          d.coordinates.describe ++ "\n"
        else [])
    ++ excerpt o p d.span
    ++ (if o.showCandidates ||
      d.isAmbiguity then d.candidates.flatMap (candidateLine o) else [])
    ++ (if o.showNotes then d.notes.flatMap (noteLine o p) else [])

def all (o : Options) (p : Places) (ds : List Diagnostic) : Text :=
  Text.join "\n" (ds.map (one o p))

end Pretty

end Diagnostic

end ProtocolCorpus
