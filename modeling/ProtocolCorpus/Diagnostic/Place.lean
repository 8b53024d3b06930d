import ProtocolCorpus.Diagnostic.Basic
import ProtocolCorpus.Source.File

/-!
# Places

How the file of a span is shown, and the place of a span as `path:line:column`.
-/

namespace ProtocolCorpus

inductive PathMode
  /-- The path below the base directory, but only the last part of a long
  absolute path. -/
  | auto
  | absolute
  /-- The path below the base directory. -/
  | relative
  | basename
  deriving DecidableEq, Repr, Inhabited

namespace PathMode

def number : PathMode → Nat
  | .auto => 0
  | .absolute => 1
  | .relative => 2
  | .basename => 3

def parse? (word : Text) : Option PathMode :=
  if word.isEmpty || word == "auto" then some .auto
  else if word == "absolute" || word == "abs" then some .absolute
  else if word == "relative" || word == "rel" then some .relative
  else if word == "basename" || word == "base" then some .basename
  else none

end PathMode

namespace Source

/-- The slashes up to which an absolute path counts as short. -/
def shortPathSlashes : Nat := 4

/-- The path of a file in a mode, when relative paths are taken from the working
directory. A dash stands for a file that is not known. -/
def Files.pathIn (fs : Files) (cwd : Text) (mode : PathMode)
    (id : UInt32) : Text :=
  match fs.get? id with
  | none => "-"
  | some f =>
    match mode with
    | .absolute =>
      if Path.isAbsolute f.path then f.path else Path.join [cwd, f.path]
    | .relative => fs.displayPath id
    | .basename => Path.base f.path
    | .auto =>
      let p := fs.displayPath id
      if Path.isAbsolute p && p.count Path.slash > shortPathSlashes then
        Path.base p
      else p

end Source

/-- The files that diagnostics point into, and how their paths are shown. -/
structure Places where
  files : Option Source.Files
  mode : PathMode := .auto
  /-- The directory relative paths are taken from. -/
  cwd : Text := "/"

namespace Places

def file? (p : Places) (span : Span) : Option Source.File :=
  p.files.bind fun fs => fs.get? span.file

def path (p : Places) (span : Span) : Text :=
  match p.files with
  | none => "-"
  | some fs => fs.pathIn p.cwd p.mode span.file

def resolve (p : Places) (span : Span) : Position × Position :=
  match p.files with
  | none => ({}, {})
  | some fs => fs.resolve span

/-- The place of a span as `path:line:column`, or a dash if the file is not
known. -/
def describe (p : Places) (span : Span) : Text :=
  match p.file? span with
  | none => "-"
  | some _ =>
    let start := (p.resolve span).1
    p.path span ++ ":" ++ Text.ofNat start.line.toNat ++ ":" ++
      Text.ofNat start.column.toNat

end Places

end ProtocolCorpus
