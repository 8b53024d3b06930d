import ProtocolCorpus.Text.Quoted

/-!
# Severities

How serious a diagnostic is. Severities are ordered by their level; levels above
that of an error have no name of their own.
-/

namespace ProtocolCorpus

structure Severity where
  level : UInt8
  deriving DecidableEq, Repr, Inhabited, Hashable

namespace Severity

/-- Worth knowing. -/
def info : Severity := ⟨0⟩

/-- Suspicious, but the corpus can be used. -/
def warning : Severity := ⟨1⟩

def error : Severity := ⟨2⟩

def name (s : Severity) : Text :=
  if s = info then "INFO"
  else if s = warning then "WARNING"
  else if s = error then "ERROR"
  else "UNKNOWN"

def label (s : Severity) : Text :=
  s.name.map Text.lowerByte

/-- The severity a word stands for; case and surrounding white space do not
matter. -/
def parse? (word : Text) : Option Severity :=
  let w := (Text.trim word).lower
  if w == "info" then some info
  else if w == "warning" || w == "warn" then some warning
  else if w == "error" then some error
  else none

def unknownMessage (word : Text) : Text :=
  "unknown severity " ++ word.quoted ++ " (expected info|warning|error)"

end Severity

end ProtocolCorpus
