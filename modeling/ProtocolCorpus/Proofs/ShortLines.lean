import Mathlib.Algebra.Order.BigOperators.Group.List
import ProtocolCorpus.Diagnostic.Short
import ProtocolCorpus.Document.Reader
import ProtocolCorpus.Proofs.Numerals
import ProtocolCorpus.Proofs.Parts
import ProtocolCorpus.Proofs.Scalars

/-!
# The lines of short diagnostics

Short diagnostics are meant for readers that go by lines: one for each
diagnostic, candidate and note. Messages are brought into one line before they
are written. Coordinates, candidates and paths are written as they are, and a
line feed in one of them starts a further line. So the number of lines is as
intended exactly if there is none.
-/

namespace ProtocolCorpus

namespace Text

/-- Whatever is trimmed away, nothing comes in. -/
theorem mem_of_mem_trim {t : Text} {b : UInt8} (h : b ∈ trim t) :
    b ∈ t := by
  obtain ⟨s, hs, hb⟩ := List.mem_flatMap.1 h
  have hmem : s ∈ scalars t := by
    rw [List.mem_reverse] at hs
    have hback := (List.dropWhile_sublist _).subset hs
    rw [List.mem_reverse] at hback
    exact (List.dropWhile_sublist _).subset hback
  rw [← ofScalars_scalars t]
  exact List.mem_flatMap.2 ⟨s, hmem, hb⟩

@[simp]
theorem breaks_ofNat (n : Nat) :
    (ofNat n).breaks = 0 := by
  rw [breaks_eq_zero_iff]
  intro hfeed
  exact absurd (isDigit_of_mem_ofNat hfeed) (by decide)

end Text

namespace Diagnostic

/-! ## Parts of a line -/

@[simp]
theorem breaks_label (s : Severity) :
    s.label.breaks = 0 := by
  unfold Severity.label Severity.name
  split_ifs
  all_goals decide

theorem breaks_area {c : Code} {a : String} (h : c.area? = some a) :
    (Text.ofString a).breaks = 0 := by
  unfold Code.area? at h
  split at h <;> cases h <;> decide

@[simp]
theorem breaks_id (c : Code) :
    c.id.breaks = 0 := by
  unfold Code.id
  split
  next a ha =>
    have hzeros : ∀ n, (Text.fill n 0x30).breaks = 0 := by
      intro n
      rw [Text.breaks_eq_zero_iff, Text.fill]
      intro hfeed
      exact absurd (List.eq_of_mem_replicate hfeed) (by decide)
    simp [Text.padLeft, breaks_area ha, hzeros]
  next => decide

/-- A message on one line has no line feed, whatever the message is. -/
@[simp]
theorem breaks_oneLine (message : Text) :
    (oneLine message).breaks = 0 := by
  rw [Text.breaks_eq_zero_iff]
  intro hfeed
  obtain ⟨b, -, hb⟩ := List.mem_map.1 (Text.mem_of_mem_trim hfeed)
  split at hb
  next => exact absurd hb (by decide)
  next hother => exact hother (.inr hb)

def shownPath (files : Option Source.Files) (span : Span) : Text :=
  Places.path { files, mode := .relative } span

@[simp]
theorem breaks_location (files : Option Source.Files) (span : Span) :
    (location files span).breaks = (shownPath files span).breaks := by
  have hdash : Text.breaks (Text.ofString "-") = 0 := by decide
  have hcolon : Text.breaks (Text.ofString ":") = 0 := by decide
  unfold location shownPath Places.describe
  cases hfile : Places.file? { files, mode := .relative } span with
  | some f => simp [hcolon]
  | none =>
    have hpath : Places.path { files, mode := .relative } span =
        Text.ofString "-" := by
      cases files with
      | none => rfl
      | some fs =>
        have hget : fs.get? span.file = none := hfile
        simp [Places.path, Source.Files.pathIn, hget]
    rw [hpath]

/-! ## Fields that are written as they are -/

def coordinateFields (c : Coordinates) : List Text :=
  [c.protocol, c.interface, c.message, c.argument]

def candidateFields (c : Candidate) : List Text :=
  [c.protocol, c.module, c.importPath, c.source]

/-- The fields of a diagnostic that are written as they are. -/
def rawFields (files : Option Source.Files) (withNotes : Bool)
    (d : Diagnostic) : List Text :=
  shownPath files d.span ::
    (coordinateFields d.coordinates ++ d.candidates.flatMap candidateFields
    ++ if withNotes then d.notes.map fun n => shownPath files n.span else [])

def breaksIn (fields : List Text) : Nat :=
  (fields.map Text.breaks).sum

@[simp]
theorem breaksIn_append (fields more : List Text) :
    breaksIn (fields ++ more) = breaksIn fields + breaksIn more := by
  simp [breaksIn]

@[simp]
theorem breaksIn_cons (t : Text) (fields : List Text) :
    breaksIn (t :: fields) = t.breaks + breaksIn fields := by
  simp [breaksIn]

@[simp]
theorem breaksIn_nil :
    breaksIn [] = 0 :=
  rfl

theorem breaksIn_eq_zero_iff {fields : List Text} :
    breaksIn fields = 0 ↔ ∀ t ∈ fields, 0x0A ∉ t := by
  rw [breaksIn, List.sum_eq_zero_iff, List.forall_mem_map]
  simp only [Text.breaks_eq_zero_iff]

theorem breaksIn_flatMap {α : Type} (f : α → List Text) (as : List α) :
    breaksIn (as.flatMap f) = (as.map fun a => breaksIn (f a)).sum := by
  induction as with
  | nil => rfl
  | cons a as ih =>
    rw [List.flatMap_cons, breaksIn_append, ih, List.map_cons, List.sum_cons]

/-- A field with something around it, which is left out if the field is empty.
-/
theorem breaks_optional {t u : Text} (h : u.breaks = t.breaks) :
    Text.breaks (if t.isEmpty then [] else u) = t.breaks := by
  split
  next hempty => rw [List.isEmpty_iff.1 hempty]
  next => exact h

theorem breaks_describe (c : Coordinates) :
    c.describe.breaks = breaksIn (coordinateFields c) := by
  have hinterface : (Text.ofString "::" ++ c.interface).breaks =
      c.interface.breaks := by
    rw [Text.breaks_append]
    exact Nat.zero_add _
  have hmessage : (Text.ofString "." ++ c.message).breaks =
      c.message.breaks := by
    rw [Text.breaks_append]
    exact Nat.zero_add _
  have hargument :
      (Text.ofString "(" ++ c.argument ++ Text.ofString ")").breaks =
      c.argument.breaks := by
    rw [Text.breaks_append, Text.breaks_append]
    exact Nat.zero_add _
  simp only [Coordinates.describe, Text.string_append, Text.append_string,
    Text.breaks_append, breaks_optional hinterface, breaks_optional hmessage,
    breaks_optional hargument]
  simp [coordinateFields, Nat.add_assoc]

theorem breaks_candidateLine (c : Candidate) :
    (candidateLine c).breaks = 1 + breaksIn (candidateFields c) := by
  have hprotocol : (Text.ofString "\n  candidate protocol=").breaks = 1 := by
    decide
  have hmodule : (Text.ofString " module=").breaks = 0 := by decide
  have himport : (Text.ofString " import=").breaks = 0 := by decide
  have hsource : (Text.ofString " source=").breaks = 0 := by decide
  simp [candidateLine, candidateFields, hprotocol, hmodule, himport, hsource]

theorem breaks_noteLine (files : Option Source.Files) (n : Note) :
    (noteLine files n).breaks = 1 + (shownPath files n.span).breaks := by
  have hnote : (Text.ofString "\n  note ").breaks = 1 := by decide
  have hblank : (Text.ofString " ").breaks = 0 := by decide
  simp [noteLine, hnote, hblank]

/-! ## All lines -/

/-- One line for each diagnostic, each candidate and each note that is shown. -/
def intendedLines (withNotes : Bool) (ds : List Diagnostic) : Nat :=
  ds.length + (ds.flatMap candidates).length + if withNotes
    then (ds.flatMap notes).length else 0

theorem intendedLines_cons (withNotes : Bool) (d : Diagnostic)
    (ds : List Diagnostic) :
    intendedLines withNotes (d :: ds) = intendedLines withNotes [d] +
      intendedLines withNotes ds := by
  cases withNotes <;> simp [intendedLines] <;> omega

theorem breaks_short (files : Option Source.Files) (withNotes : Bool)
    (d : Diagnostic) :
    (short files withNotes d).breaks + 1 =
      intendedLines withNotes [d] + breaksIn (rawFields files withNotes d) := by
  have hblank : (Text.ofString " ").breaks = 0 := by decide
  have hcoordinates : Text.breaks (if d.coordinates.isZero then []
      else Text.ofString " " ++ d.coordinates.describe) =
      breaksIn (coordinateFields d.coordinates) := by
    split
    next hzero =>
      have hnone : d.coordinates = {} := eq_of_beq hzero
      rw [hnone]
      rfl
    next => simp [hblank, breaks_describe]
  have hcandidates : Text.breaks (d.candidates.flatMap candidateLine) =
      d.candidates.length + breaksIn
      (d.candidates.flatMap candidateFields) := by
    rw [Text.breaks_flatMap, breaksIn_flatMap]
    simp only [breaks_candidateLine, List.sum_map_add]
    simp
  have hnotes : Text.breaks (if withNotes then d.notes.flatMap (noteLine files)
      else []) =
      (if withNotes then d.notes.length else 0)
        + breaksIn (if withNotes then d.notes.map fun n =>
          shownPath files n.span else []) := by
    cases withNotes with
    | false => rfl
    | true =>
      simp only [if_true, Text.breaks_flatMap, breaks_noteLine,
        List.sum_map_add, breaksIn, List.map_map]
      simp [Function.comp_def]
  simp only [short, Text.string_append, Text.breaks_append, hcoordinates,
    hcandidates, hnotes, breaks_label, breaks_id, breaks_location,
    breaks_oneLine, hblank, rawFields, breaksIn_cons, breaksIn_append,
    intendedLines, List.length_singleton, List.flatMap_singleton]
  omega

theorem length_lines_shortAll
    (files : Option Source.Files) (withNotes : Bool) {ds : List Diagnostic}
    (h : ds ≠ []) :
    (shortAll files withNotes ds).lines.length =
      intendedLines withNotes ds + breaksIn
      (ds.flatMap (rawFields files withNotes)) := by
  have hne : ds.map (short files withNotes) ≠ [] := by simpa using h
  rw [Text.length_lines, shortAll, Text.breaks_join hne, breaksIn_flatMap,
    List.map_map]
  clear h hne
  induction ds with
  | nil => cases withNotes <;> rfl
  | cons d ds ih =>
    rw [List.map_cons, List.sum_cons, ih, List.map_cons, List.sum_cons,
      intendedLines_cons, Function.comp_apply, breaks_short]
    omega

/-- There are as many lines as intended, and one more for every line feed in a
field that is written as it is. So the number is as intended exactly if no such
field has a line feed. -/
theorem lines_shortAll_iff
    (files : Option Source.Files) (withNotes : Bool) {ds : List Diagnostic}
    (h : ds ≠ []) :
    (shortAll files withNotes ds).lines.length =
        intendedLines withNotes ds + breaksIn
        (ds.flatMap (rawFields files withNotes)) ∧
      ((shortAll files withNotes ds).lines.length = intendedLines withNotes ds ↔
        ∀ d ∈ ds, ∀ t ∈ rawFields files withNotes d, 0x0A ∉ t) := by
  have hlength := length_lines_shortAll files withNotes h
  refine ⟨hlength, ?_⟩
  rw [hlength, Nat.add_eq_left, breaksIn_eq_zero_iff]
  simp only [List.forall_mem_flatMap]

/-- A message of two lines with a candidate and a note, in the second line of a
file. -/
def wrapped : List Diagnostic :=
  [{ Diagnostic.error .ambiguousInterface ⟨0, 11, 23⟩
    { protocol := "e", interface := "e_thing" } "one\r\ntwo" with
      candidates := [⟨"c", "c", "p/c", "c.xml"⟩]
      notes := [⟨⟨0, 0, 10⟩, "declared\nhere"⟩] }]

def wrappedFiles : Source.Files where
  files :=
    #[{ id := 0, path := "/corpus/e.xml", content := "<protocol>\n<interface/>",
        newlines := [10], digest := [],
               treatment := ⟨0⟩ }]
  base := "/corpus"

theorem wrapped_lines :
    wrapped ≠ [] ∧
    (∀ d ∈ wrapped, ∀ t ∈ rawFields (some wrappedFiles) true d, 0x0A ∉ t) ∧
      (shortAll (some wrappedFiles) true wrapped).lines =
        ["error RES3002 e.xml:2:1 e::e_thing one two",
        "  candidate protocol=c module=c import=p/c source=c.xml",
        "  note e.xml:1:1 declared here"].map Text.ofString ∧
      (shortAll (some wrappedFiles) true wrapped).lines.length =
        intendedLines true wrapped := by
  have hplain : ∀ d ∈ wrapped, ∀ t ∈ rawFields (some wrappedFiles) true d,
    0x0A ∉ t := by decide +kernel
  exact ⟨by decide, hplain, by decide +kernel,
    (lines_shortAll_iff _ _ (by decide)).2.2 hplain⟩

/-- A document whose protocol has a line feed in its name, written as a
reference to the character. -/
def brokenName : Source.File where
  id := 0
  path := "p.xml"
  content := "<protocol name=\"a&#10;b\"><x/></protocol>"
  newlines := []
  digest := []
  treatment := ⟨0⟩

/-- The one finding on the document takes two lines. -/
theorem brokenName_lines :
    ∃ d found, Document.read Document.maxOffset brokenName = (some d, found) ∧
    intendedLines false found = 1 ∧
      (shortAll (some { files := #[brokenName] }) false found).lines =
        ["warning WLX1006 p.xml:1:26 a",
        "b unexpected element <x> inside <protocol>"].map Text.ofString := by
  have hread : Document.read Document.maxOffset brokenName =
      (some { path := "p.xml",
              protocol := some { name := "a\nb", span := ⟨0, 0, 25⟩ } },
        [.warning .unexpectedElement ⟨0, 25, 29⟩ { protocol := "a\nb" }
          "unexpected element <x> inside <protocol>"]) := by
    decide +kernel
  exact ⟨_, _, hread, by decide, by decide +kernel⟩

end Diagnostic

end ProtocolCorpus
