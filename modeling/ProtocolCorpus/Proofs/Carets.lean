import Mathlib.Algebra.GroupWithZero.Nat
import ProtocolCorpus.Diagnostic.Pretty
import ProtocolCorpus.Proofs.Scalars

/-!
# Carets below a line

The line above the carets is shown with blanks for its tabs, and the carets
start behind as many blanks as the part of the line before the span takes cells.
That part is expanded on its own, so its expansion has to be the start of the
expanded line: a tab looks only at what stands to its left. The carets can be
written below every line and for every span, because no number of characters
that is asked for is negative.
-/

namespace ProtocolCorpus

namespace Text

variable {line : Text}

/-! ## Expanding a part of a line -/

/-- The cells of all characters of a text, one by one. -/
def cells (t : Text) : Nat :=
  ((scalars t).map fun s => codeWidth s.code).sum

/-- The cells that are taken behind a row of characters, when so many are taken
before it. -/
def cellsBehind (before : Nat) : List Scalar → Nat
  | [] => before
  | s :: rest =>
    if s.code = 0x09 then cellsBehind (before + tabBlanks before) rest
    else cellsBehind (before + codeWidth s.code) rest

/-- The expansion goes on with the cells that are taken so far. -/
theorem expandFrom_append (before : Nat) (front back : List Scalar) :
    expandFrom before (front ++ back) =
      expandFrom before front ++ expandFrom
      (cellsBehind before front) back := by
  induction front generalizing before with
  | nil => rfl
  | cons s front ih =>
    rw [List.cons_append, expandFrom, expandFrom, cellsBehind]
    split
    · rw [ih, List.append_assoc]
    · rw [ih, List.append_assoc]

theorem cellsBehind_append (before : Nat) (front back : List Scalar) :
    cellsBehind before (front ++ back) =
    cellsBehind (cellsBehind before front) back := by
  induction front generalizing before with
  | nil => rfl
  | cons s front ih =>
    rw [List.cons_append, cellsBehind, cellsBehind]
    split
    · exact ih _
    · exact ih _

theorem cells_utf8EncodeChar_append (c : Char) (t : Text) :
    cells (String.utf8EncodeChar c ++ t) = codeWidth c.toNat + cells t := by
  rw [cells, scalars_utf8EncodeChar_append]
  rfl

theorem cells_blanks_append (n : Nat) (t : Text) :
    cells (blanks n ++ t) = n + cells t := by
  induction n with
  | zero => exact (Nat.zero_add _).symm
  | succ n ih =>
    have hblank : cells (blanks (n + 1) ++ t) =
      codeWidth 0x20 + cells (blanks n ++ t) :=
      cells_utf8EncodeChar_append ' ' (blanks n ++ t)
    have hone : codeWidth 0x20 = 1 := by decide
    rw [hblank, ih, hone]
    omega

/-- The cells that are counted on the way are those of the characters that are
written. -/
theorem add_cells_expandFrom (before : Nat) (cs : List Char) :
    before + cells (expandFrom before (cs.map .char)) =
    cellsBehind before (cs.map .char) := by
  induction cs generalizing before with
  | nil => rfl
  | cons c cs ih =>
    rw [List.map_cons, expandFrom, cellsBehind]
    split
    · rw [cells_blanks_append, ← ih]
      omega
    · rw [Scalar.repaired, cells_utf8EncodeChar_append, ← ih]
      exact (Nat.add_assoc _ _ _).symm

theorem expandFrom_of_no_tab
    {cs : List Char} (h : '\t' ∉ cs) (before : Nat) :
    expandFrom before (cs.map .char) = ofChars cs := by
  induction cs generalizing before with
  | nil => rfl
  | cons c cs ih =>
    rw [List.mem_cons, not_or] at h
    have hcode : ¬(Scalar.char c).code = 0x09 := by
      intro hcode
      exact h.1 (Char.toNat_inj.1 hcode.symm)
    rw [List.map_cons, expandFrom, if_neg hcode, ih h.2]
    rfl

/-- A line without tabs is not looked at character by character; that makes no
difference. -/
theorem expandTabs_ofChars (cs : List Char) :
    expandTabs (ofChars cs) = expandFrom 0 (cs.map .char) := by
  rw [expandTabs]
  split
  next => rw [scalars_ofChars]
  next hbytes =>
    -- A tab is written with its own byte, so without that byte there is no tab
    -- among the characters.
    have hchars : '\t' ∉ cs := by
      intro htab
      refine hbytes (List.contains_iff_mem.2 ?_)
      exact List.mem_flatMap.2 ⟨'\t', htab, List.mem_cons_self⟩
    exact (expandFrom_of_no_tab hchars 0).symm

theorem tabBlanks_spec (before : Nat) :
    1 ≤ tabBlanks before ∧ tabBlanks before ≤ 4 ∧
    4 ∣ before + tabBlanks before := by
  simp only [tabBlanks, tabStop]
  omega

/-! ## Characters of a line -/

def firstChars (line : Text) (n : Nat) : Text :=
  ofChars ((chars line).take n)

/-- The column, counted in bytes, stands behind some number of characters of the
line. -/
def IsBoundary (line : Text) (col : Nat) : Prop :=
  ∃ n, col = (firstChars line n).length

theorem firstChars_append (hline : isWellFormed line = true) (n : Nat) :
    firstChars line n ++ ofChars ((chars line).drop n) = line := by
  rw [firstChars, ← ofChars_append, List.take_append_drop, ofChars_chars hline]

theorem take_length_firstChars (hline : isWellFormed line = true) (n : Nat) :
    line.take (firstChars line n).length = firstChars line n := by
  calc
    line.take (firstChars line n).length
        = (firstChars line n ++ ofChars ((chars line).drop n)).take
            (firstChars line n).length := by
      rw [firstChars_append hline]
    _ = firstChars line n := List.take_left

theorem cells_expandTabs_ofChars (cs : List Char) :
    cells (expandTabs (ofChars cs)) = cellsBehind 0 (cs.map .char) := by
  rw [expandTabs_ofChars, ← add_cells_expandFrom, Nat.zero_add]

/-- One more character is expanded behind what is there, by the cells that are
taken there. -/
theorem expandTabs_firstChars_succ {n : Nat} {c : Char}
    (hc : (chars line)[n]? = some c) :
    expandTabs (firstChars line (n + 1)) =
        expandTabs (firstChars line n) ++ expandFrom
        (cells (expandTabs (firstChars line n))) [.char c] ∧
      cells (expandTabs (firstChars line (n + 1))) =
        cellsBehind (cells (expandTabs (firstChars line n))) [.char c] := by
  have hchars : firstChars line (n + 1) =
      ofChars ((chars line).take n ++ [c]) := by
    rw [firstChars, List.take_add_one, hc]
    rfl
  rw [hchars, firstChars, cells_expandTabs_ofChars, cells_expandTabs_ofChars,
    expandTabs_ofChars, expandTabs_ofChars, List.map_append]
  exact ⟨expandFrom_append _ _ _, cellsBehind_append _ _ _⟩

structure TabsExpanded (line : Text) : Prop where
  /-- The part before a boundary is expanded to the start of the expanded line.
  -/
  front : ∀ col, IsBoundary line col →
    expandTabs (line.take col) <+: expandTabs line
  /-- A tab becomes one to four blanks, behind which the number of cells is a
  multiple of four. -/
  tab : ∀ n, (chars line)[n]? = some '\t' →
    ∃ k, 1 ≤ k ∧ k ≤ 4 ∧ expandTabs (firstChars line (n + 1)) =
    expandTabs (firstChars line n) ++ blanks k ∧
      4 ∣ cells (expandTabs (firstChars line (n + 1)))
  other : ∀ n c, (chars line)[n]? = some c → c ≠ '\t' →
    expandTabs (firstChars line (n + 1)) = expandTabs (firstChars line n) ++
    String.utf8EncodeChar c

theorem tabsExpanded (hline : isWellFormed line = true) :
    TabsExpanded line := by
  constructor
  case front =>
    rintro col ⟨n, rfl⟩
    rw [take_length_firstChars hline]
    calc
      expandTabs (firstChars line n)
          <+: expandFrom 0
          (((chars line).take n ++ (chars line).drop n).map .char) := by
        rw [firstChars, expandTabs_ofChars, List.map_append, expandFrom_append]
        exact List.prefix_append _ _
      _ = expandTabs line := by
        rw [List.take_append_drop, ← expandTabs_ofChars, ofChars_chars hline]
  case tab =>
    intro n hn
    have htab : (Scalar.char '\t').code = 0x09 := rfl
    obtain ⟨hpos, hle, hstop⟩ :=
      tabBlanks_spec (cells (expandTabs (firstChars line n)))
    obtain ⟨hsucc, hcells⟩ := expandTabs_firstChars_succ hn
    rw [expandFrom, if_pos htab, expandFrom, List.append_nil] at hsucc
    rw [cellsBehind, if_pos htab, cellsBehind] at hcells
    exact ⟨_, hpos, hle, hsucc, hcells ▸ hstop⟩
  case other =>
    intro n c hn hc
    have hcode : ¬(Scalar.char c).code = 0x09 := fun hcode =>
      hc (Char.toNat_inj.1 hcode)
    rw [(expandTabs_firstChars_succ hn).1, expandFrom, if_neg hcode, expandFrom,
      List.append_nil]
    rfl

end Text

/-! ## The line of the carets -/

namespace Diagnostic.Pretty

/-- So many copies of a byte; a negative number of copies cannot be written. -/
def copies? (n : Int) (b : UInt8) : Option Text :=
  if 0 ≤ n then some (Text.fill n.toNat b) else none

/-- The blanks and carets below a line, with differences that may be negative on
the way. -/
def caretLine? (line : Text) (start stop : Position) : Option Text := do
  let first := bytesBefore line start.column
  let last := if stop.line = start.line then bytesBefore line stop.column
    else line.length
  let pad : Int := Text.width (Text.expandTabs (line.take first))
  let span : Int :=
    if first < last then Text.width (Text.expandTabs (line.take last)) - pad
    else 0
  let front ← copies? pad 0x20
  let tildes ← copies? (max span 1 - 1) 0x7E
  return front ++ "^" ++ tildes

theorem copies?_natCast (n : Nat) (b : UInt8) :
    copies? n b = some (Text.fill n b) :=
  if_pos (Int.natCast_nonneg n)

theorem one_le_caretExtent (line : Text) (start stop : Position) :
    1 ≤ (caretExtent line start stop).2 :=
  Nat.le_max_right _ _

theorem caretLine?_eq (line : Text) (start stop : Position) :
    caretLine? line start stop =
      some (Text.blanks (caretExtent line start stop).1 ++ underline
      (caretExtent line start stop).2) := by
  have htildes : ∀ (first last pad cells : Nat),
      max (if first < last then (cells : Int) - pad else 0) 1 - 1 =
        ((max (if first < last then cells - pad else 0) 1 - 1 : Nat) :
        Int) := by
    intro first last pad cells
    split
    · omega
    · omega
  simp only [caretLine?, htildes, copies?_natCast]
  simp only [caretExtent, cellsBefore, underline, Text.blanks]
  exact congrArg some (List.append_assoc _ _ _)

/-- The carets start behind the cells of the part before the span, take at least
one cell, and can be written. -/
structure CaretsFit (line : Text) (start stop : Position) : Prop where
  pad : (caretExtent line start stop).1 =
    Text.width (Text.expandTabs (line.take (bytesBefore line start.column)))
  one_le : 1 ≤ (caretExtent line start stop).2
  written : caretLine? line start stop =
    some (Text.blanks (caretExtent line start stop).1 ++ underline
    (caretExtent line start stop).2)

/-- In a well-formed line, what is expanded before a boundary is the start of
the expanded line, and tabs lead to multiples of four cells. The carets of any
span start behind the cells of what stands before it, take one cell or more and
can be written. -/
theorem carets_below_span (line : Text) :
    (Text.isWellFormed line = true → Text.TabsExpanded line) ∧
      ∀ start stop : Position, CaretsFit line start stop :=
  ⟨Text.tabsExpanded,
    fun start stop =>
      ⟨rfl, one_le_caretExtent line start stop, caretLine?_eq line start stop⟩⟩

/-- A line with two tabs, one of them behind a character of two bytes. -/
def tabbed : Text :=
  "\té\tx"

/-- The accent takes one cell, so the second tab takes three; a span that ends
before it starts gets one caret. -/
theorem carets_below_tabbed :
    Text.isWellFormed tabbed = true ∧ Text.TabsExpanded tabbed ∧
    Text.expandTabs tabbed = "    é   x" ∧
      CaretsFit tabbed ⟨1, 2⟩ ⟨1, 1⟩ ∧ caretExtent tabbed ⟨1, 2⟩ ⟨1, 1⟩ =
      (4, 1) := by
  have hwell : Text.isWellFormed tabbed = true := by decide +kernel
  exact ⟨hwell,
    (carets_below_span tabbed).1 hwell, by
    decide +kernel, (carets_below_span tabbed).2 _ _,
    by decide +kernel⟩

end Diagnostic.Pretty

end ProtocolCorpus
