import ProtocolCorpus.Diagnostic.Bag
import ProtocolCorpus.Diagnostic.Pretty
import ProtocolCorpus.Json.Printer

/-!
# Diagnostics for programs

Diagnostics as a record, written as JSON: what each says, where, and how many
there are.
-/

namespace ProtocolCorpus

namespace Diagnostic

namespace Report

structure Options where
  /-- Lines and columns are added to the byte offsets. -/
  positions : Bool := false
  /-- At most so many diagnostics; all of them if not positive. -/
  limit : Int := 0
  notes : Bool := false
  candidates : Bool := false

/-- A number that is left out if it is zero. -/
def countOr (n : UInt32) : Option Tree :=
  if n = 0 then none else some (.int n.toNat)

def location (o : Options) (p : Places) (span : Span) : Tree :=
  let (start, stop) := if o.positions && (p.file? span).isSome
    then p.resolve span else ({}, {})
  .sparse [
    ("file", some (.text (p.path span))),
    ("start_byte", some (.int span.start.toNat)),
    ("end_byte", some (.int span.stop.toNat)),
    ("start_line", countOr start.line),
    ("start_col", countOr start.column),
    ("end_line", countOr stop.line),
    ("end_col", countOr stop.column)]

def coordinates (c : Coordinates) : Option Tree :=
  if c.isZero then none
  else some (.sparse [
    ("protocol", Tree.textOr c.protocol),
    ("interface", Tree.textOr c.interface),
    ("message", Tree.textOr c.message),
    ("argument", Tree.textOr c.argument)])

def candidate (c : Candidate) : Tree :=
  .record [
    ("protocol", .text c.protocol),
    ("module", .text c.module),
    ("import_path", .text c.importPath),
    ("source", .text c.source)]

def note (o : Options) (p : Places) (n : Note) : Tree :=
  .record [("message", .text n.message), ("location", location o p n.span)]

/-- One diagnostic. Candidates of an ambiguity and the notes of timings are
always there. -/
def one (o : Options) (p : Places) (d : Diagnostic) : Tree :=
  .sparse [
    ("severity", some (.text d.severity.name)),
    ("code", some (.text d.code.id)),
    ("title", some (.text d.code.title)),
    ("message", some (.text d.message)),
    ("location", some (location o p d.span)),
    ("where", coordinates d.coordinates),
    ("candidates",
      if o.candidates ||
      d.isAmbiguity then Tree.listOr (d.candidates.map candidate) else none),
    ("notes",
      if o.notes || d.code == .timings then Tree.listOr (d.notes.map (note o p))
      else none)]

/-- The record of all diagnostics. Errors are counted beyond the limit, too. -/
def ofBag (o : Options) (p : Places) (b : Bag) : Tree :=
  let items := b.items.toList
  let shown := if 0 < o.limit then items.take o.limit.toNat else items
  .record [
    ("diagnostics", .list (shown.map (one o p))),
    ("count", .int shown.length),
    ("errors", .int b.errorCount)]

def render (o : Options) (p : Places) (b : Bag) : Text :=
  Json.document (ofBag o p b)

end Report

end Diagnostic

end ProtocolCorpus
