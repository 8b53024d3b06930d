import ProtocolCorpus.Text.Quoted

/-!
# Levels and scopes of a trace

Every event of a trace has a scope, from the whole command down to one element
of a document. The level of a trace says which scopes are written while the work
goes on.
-/

namespace ProtocolCorpus

namespace Trace

/-- How fine an event is; a lower rank is coarser. -/
structure Scope where
  rank : UInt8
  deriving DecidableEq, Repr, Inhabited

namespace Scope

def command : Scope := ⟨1⟩

def pass : Scope := ⟨2⟩

def document : Scope := ⟨3⟩

def element : Scope := ⟨4⟩

def name (s : Scope) : Text :=
  if s = command then "driver"
  else if s = pass then "pass"
  else if s = document then "document"
  else if s = element then "element"
  else "unknown"

end Scope

inductive Level
  | off
  /-- Events are only kept, for a dump after a failure. -/
  | error
  | phase
  | detail
  | debug
  /-- A level without a meaning: events are only kept. -/
  | undefined
  deriving DecidableEq, Repr, Inhabited

namespace Level

def all : List Level :=
  [.off, .error, .phase, .detail, .debug]

def ofNumber (n : Nat) : Level :=
  all[n]?.getD .undefined

def number : Level → Nat
  | .off => 0
  | .error => 1
  | .phase => 2
  | .detail => 3
  | .debug => 4
  | .undefined => 5

def name : Level → Text
  | .off => "off"
  | .error => "error"
  | .phase => "phase"
  | .detail => "detail"
  | .debug => "debug"
  | .undefined => "unknown"

def parse? (word : Text) : Option Level :=
  all.find? fun l => Text.equalsFolded word l.name

def unknownMessage (word : Text) : Text :=
  "invalid trace level: " ++ word.quoted ++
    " (expected: off|error|phase|detail|debug)"

def isEnabled (l : Level) : Bool :=
  l != .off

def emits : Level → Scope → Bool
  | .phase, s => s.rank ≤ Scope.pass.rank
  | .detail, s => s.rank ≤ Scope.document.rank
  | .debug, _ => true
  | _, _ => false

end Level

inductive Mode
  | stream
  /-- The latest are kept in memory. -/
  | ring
  | both
  deriving DecidableEq, Repr, Inhabited

namespace Mode

def ofNumber? : Nat → Option Mode
  | 1 => some .stream
  | 2 => some .ring
  | 3 => some .both
  | _ => none

def number : Mode → Nat
  | .stream => 1
  | .ring => 2
  | .both => 3

def name : Mode → Text
  | .stream => "stream"
  | .ring => "ring"
  | .both => "both"

def parse? (word : Text) : Option Mode :=
  [stream, ring, both].find? fun m => Text.lower word == m.name

def unknownMessage (word : Text) : Text :=
  "invalid storage mode: " ++ word.quoted ++ " (expected: stream|ring|both)"

def streams (m : Mode) : Bool :=
  m != .ring

def keeps (m : Mode) : Bool :=
  m != .stream

end Mode

inductive Format
  /-- Chosen by the name of the file they are written to. -/
  | auto
  | text
  | lines
  deriving DecidableEq, Repr, Inhabited

namespace Format

def ofNumber : Nat → Format
  | 0 => .auto
  | 2 => .lines
  | _ => .text

def number : Format → Nat
  | .auto => 0
  | .text => 1
  | .lines => 2

def parse? (word : Text) : Option Format :=
  let w := Text.lower word
  if w.isEmpty || w == "auto" then some .auto
  else if w == "text" then some .text
  else if w == "ndjson" || w == "json" then some .lines
  else none

def unknownMessage (word : Text) : Text :=
  "invalid trace format: " ++ word.quoted ++ " (expected: auto|text|ndjson)"

/-- The format for a file: JSON lines if its extension says so, where nothing is
demanded. -/
def forPath (f : Format) (path : Text) : Format :=
  if f = .auto then
    if Text.endsWith path ".ndjson" || Text.endsWith path ".jsonl" then .lines
    else .text
  else f

end Format

end Trace

end ProtocolCorpus
