import ProtocolCorpus.Json.Printer
import ProtocolCorpus.Text.Timestamp
import ProtocolCorpus.Trace.Level

/-!
# Events of a trace

An event marks the start or the end of a span of work, or a single instant. It
is written as a line of text or as a JSON object.
-/

namespace ProtocolCorpus

namespace Trace

inductive Kind
  | start
  | finish
  | point
  | undefined
  deriving DecidableEq, Repr, Inhabited

namespace Kind

def ofNumber : Nat → Kind
  | 1 => .start
  | 2 => .finish
  | 3 => .point
  | _ => .undefined

def name : Kind → Text
  | .start => "begin"
  | .finish => "end"
  | .point => "point"
  | .undefined => "unknown"

def mark : Kind → Text
  | .start => "→ "
  | .finish => "← "
  | .point => "• "
  | .undefined => ""

end Kind

/-- Keys with their values, each key once. -/
abbrev Remarks := List (Text × Text)

namespace Remarks

def put (r : Remarks) (key value : Text) : Remarks :=
  if r.any fun (k, _) => k == key then r.map fun (k, v) =>
    (k, if k == key then value else v)
  else r ++ [(key, value)]

def sorted (r : Remarks) : Remarks :=
  r.mergeSort fun a b => Text.le a.1 b.1

end Remarks

structure Event where
  /-- Microseconds since the start of 1970. -/
  time : Int := 0
  number : UInt64 := 0
  kind : Kind := .undefined
  scope : Scope := ⟨0⟩
  span : UInt64 := 0
  /-- The span around it; zero if there is none. -/
  parent : UInt64 := 0
  worker : UInt64 := 0
  name : Text := []
  detail : Text := []
  remarks : Remarks := []
  deriving Repr, Inhabited

namespace Event

def textLine (e : Event) : Text :=
  "#" ++ Text.padRight 6 (Text.ofNat e.number.toNat) ++ " " ++
    Text.padRight 8 e.scope.name ++ " "
    ++ (if e.parent = 0 then [] else "  ")
    ++ e.kind.mark ++ e.name
    ++ (if e.detail.isEmpty then [] else " (" ++ e.detail ++ ")")
    ++ (if e.remarks.isEmpty then []
        else " \x7b" ++ Text.join ", " (e.remarks.sorted.map fun (k, v) =>
          k ++ "=" ++ v) ++ "\x7d")
    ++ "\n"

def record (e : Event) : Tree :=
  let number (n : UInt64) : Option Tree := if n = 0 then none
    else some (.int n.toNat)
  .sparse [
    ("time", some (.text (Timestamp.ofMicroseconds e.time))),
    ("seq", some (.int e.number.toNat)),
    ("kind", some (.text e.kind.name)),
    ("scope", some (.text e.scope.name)),
    ("span_id", some (.int e.span.toNat)),
    ("parent_id", number e.parent),
    ("gid", number e.worker),
    ("name", some (.text e.name)),
    ("detail", Tree.textOr e.detail),
    ("extra",
      if e.remarks.isEmpty then none
      else some (.record (e.remarks.sorted.map fun (k, v) => (k, .text v))))]

def render (e : Event) : Format → Text
  | .lines => Json.line e.record ++ "\n"
  | _ => e.textLine

end Event

end Trace

end ProtocolCorpus
