import ProtocolCorpus.Diagnostic.Report

/-!
# Static analysis results

Diagnostics in the Static Analysis Results Interchange Format, version 2.1.0:
one run, with the codes that occur as its rules.
-/

namespace ProtocolCorpus

namespace Diagnostic

namespace Sarif

structure Run where
  tool : Text
  version : Text := []
  arguments : List Text := []

def formatVersion : Text := "2.1.0"

def schema : Text := "https://json.schemastore.org/sarif-2.1.0.json"

def message (t : Text) : Tree :=
  .record [("text", .text t)]

def level (s : Severity) : Text :=
  if s == .error then "error" else if s == .warning then "warning" else "note"

def location (p : Places) (span : Span) (t : Text) : Tree :=
  let p := { p with mode := .relative }
  let (start, stop) := p.resolve span
  .sparse [
    ("physicalLocation", some (.record [
      ("artifactLocation", .record [("uri", .text (p.path span))]),
      ("region", .record [
        ("startLine", .int start.line.toNat),
        ("startColumn", .int start.column.toNat),
        ("endLine", .int stop.line.toNat),
        ("endColumn", .int stop.column.toNat),
        ("byteOffset", .int span.start.toNat),
        ("byteLength", .int span.length.toNat)])])),
    ("message", if t.isEmpty then none else some (message t))]

def result (p : Places) (d : Diagnostic) : Tree :=
  .sparse [
    ("ruleId", some (.text d.code.id)),
    ("level", some (.text (level d.severity))),
    ("message", some (message d.message)),
    ("locations", some (.list [location p d.span []])),
    ("relatedLocations",
    Tree.listOr (d.notes.map fun n => location p n.span n.message))]

/-- The codes that occur, each once, in ascending order. -/
def codes (ds : List Diagnostic) : List Code :=
  ((ds.map Diagnostic.code).mergeSort fun a b => a.number ≤ b.number).eraseDups

def rule (c : Code) : Tree :=
  .record [("id", .text c.id), ("shortDescription", message c.title)]

/-- How the tool was called, if anything is known of that. -/
def invocations (r : Run) (b : Bag) : List Tree :=
  if r.arguments.isEmpty then []
  else [.record [("arguments", Tree.texts r.arguments),
    ("executionSuccessful", .bool !b.hasErrors)]]

def ofBag (p : Places) (r : Run) (b : Bag) : Tree :=
  let items := b.items.toList
  .record [
    ("version", .text formatVersion),
    ("$schema", .text schema),
    ("runs", .list [.sparse [
      ("tool", some (.record [("driver", .sparse [
        ("name", some (.text r.tool)),
        ("version", Tree.textOr r.version),
        ("rules", Tree.listOr ((codes items).map rule))])])),
      ("invocations", Tree.listOr (invocations r b)),
      ("results", some (.list (items.map (result p))))]])]

def render (p : Places) (r : Run) (b : Bag) : Text :=
  Json.document (ofBag p r b)

end Sarif

end Diagnostic

end ProtocolCorpus
