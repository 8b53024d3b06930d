import ProtocolCorpus.Diagnostic.Code
import ProtocolCorpus.Diagnostic.Severity
import ProtocolCorpus.Source.Span

/-!
# Diagnostics

A diagnostic says what is wrong, how serious it is, where in a source file it
was found and which protocol, interface, message and argument it is about. The
work itself never prints: its functions return the diagnostics they found, in
order.
-/

namespace ProtocolCorpus

/-- What a diagnostic is about; an empty name means that nothing so narrow is
meant. -/
structure Coordinates where
  protocol : Text := []
  interface : Text := []
  message : Text := []
  argument : Text := []
  deriving DecidableEq, Repr, Inhabited, Hashable

namespace Coordinates

def isZero (c : Coordinates) : Bool :=
  c == {}

/-- The names in the form `protocol::interface.message(argument)`, without those
that are empty. -/
def describe (c : Coordinates) : Text :=
  c.protocol
    ++ (if c.interface.isEmpty then [] else "::" ++ c.interface)
    ++ (if c.message.isEmpty then [] else "." ++ c.message)
    ++ (if c.argument.isEmpty then [] else "(" ++ c.argument ++ ")")

end Coordinates

/-- A document that a reference could mean. -/
structure Candidate where
  protocol : Text := []
  module : Text := []
  importPath : Text := []
  source : Text := []
  deriving DecidableEq, Repr, Inhabited

structure Note where
  span : Span := {}
  message : Text := []
  deriving DecidableEq, Repr, Inhabited

deriving instance Hashable for Span

structure Diagnostic where
  severity : Severity := .info
  code : Code := ⟨0⟩
  message : Text := []
  span : Span := {}
  coordinates : Coordinates := {}
  candidates : List Candidate := []
  notes : List Note := []
  deriving DecidableEq, Repr, Inhabited

/-- What two reports of the same finding have in common. -/
structure Diagnostic.Key where
  code : Code
  severity : Severity
  span : Span
  coordinates : Coordinates
  message : Text
  deriving DecidableEq, Repr, Hashable

namespace Diagnostic

def error (code : Code) (span : Span) (coordinates : Coordinates)
    (message : Text) : Diagnostic :=
  { severity := .error, code, message, span, coordinates }

def warning (code : Code) (span : Span) (coordinates : Coordinates)
    (message : Text) : Diagnostic :=
  { severity := .warning, code, message, span, coordinates }

def isError (d : Diagnostic) : Bool :=
  Severity.error.level ≤ d.severity.level

/-- The key by which repeated findings are recognised; candidates and notes do
not count. -/
def key (d : Diagnostic) : Key :=
  ⟨d.code, d.severity, d.span, d.coordinates, d.message⟩

end Diagnostic

/-- A diagnostic on its way to a reader: it is handed on once, however often
that is asked for. -/
structure Draft where
  diagnostic : Diagnostic
  handedOn : Bool := false

namespace Draft

/-- The diagnostic if it has not been handed on yet, and the draft after that.
-/
def take (d : Draft) : Option Diagnostic × Draft :=
  if d.handedOn then (none, d)
  else (some d.diagnostic, { d with handedOn := true })

end Draft

end ProtocolCorpus
