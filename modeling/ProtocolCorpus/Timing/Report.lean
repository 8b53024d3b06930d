import ProtocolCorpus.Json.Printer
import ProtocolCorpus.Timing.Timer

/-!
# Reports of timings

What a timer has measured, in milliseconds, as a table or as JSON.
-/

namespace ProtocolCorpus

namespace Timing

structure PhaseReport where
  name : Text
  milliseconds : Binary64 := {}
  longest : Binary64 := {}
  /-- The number of observations, if there were several. -/
  count : Int := 0
  note : Text := []
  deriving Repr, Inhabited

structure Report where
  total : Binary64 := {}
  phases : List PhaseReport := []
  deriving Repr, Inhabited

def milliseconds (d : Int64) : Binary64 :=
  (Binary64.ofInt d.toInt).divNat 1000000

def PhaseReport.ofPhase (p : Phase) : PhaseReport :=
  let several := 1 < p.count
  { name := p.name
    milliseconds := Timing.milliseconds p.elapsed
    longest := if several then Timing.milliseconds p.longest else {}
    count := if several then p.count else 0
    note := p.note }

def Timer.report (t : Timer) : Report :=
  { total := milliseconds t.total,
    phases := t.phases.toList.map PhaseReport.ofPhase }

def padName (name : Text) : Text :=
  name ++ Text.blanks (20 - (Text.scalars name).length)

/-- A duration with two places that takes at least nine characters. -/
def column (x : Binary64) : Text :=
  Text.padLeft 9 0x20 (x.fixed 2)

def PhaseReport.line (p : PhaseReport) : Text :=
  "  " ++ padName p.name ++ " " ++ column p.milliseconds ++ " ms"
    ++ (if 1 < p.count then
          "  x" ++ Text.ofInt p.count ++ " max " ++ p.longest.fixed 2 ++ " ms"
        else [])
    ++ (if p.note.isEmpty then [] else "  // " ++ p.note)
    ++ "\n"

def Report.table (r : Report) : Text :=
  "timings:\n" ++ r.phases.flatMap PhaseReport.line
    ++ "  " ++ padName "total" ++ " " ++ column r.total ++ " ms\n"

def PhaseReport.json (p : PhaseReport) : Text :=
  Json.members [
    ("name", some (Json.quoted p.name)),
    ("duration_ms", some (Json.number p.milliseconds)),
    ("max_ms", if p.longest.mantissa = 0 then none
    else some (Json.number p.longest)),
    ("count", if p.count = 0 then none else some (Text.ofInt p.count)),
    ("note", if p.note.isEmpty then none else some (Json.quoted p.note))]

def Report.phasesJson (r : Report) : Text :=
  if r.phases.isEmpty then "null"
  else Json.items (r.phases.map PhaseReport.json)

end Timing

end ProtocolCorpus
