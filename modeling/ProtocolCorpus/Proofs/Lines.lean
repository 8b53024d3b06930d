import Mathlib.Data.List.Basic
import Mathlib.Data.List.DropRight
import ProtocolCorpus.Source.File

/-!
# Lines of a file

A place in a text falls into a line: the bytes before the line end in a line
feed, the line holds none, and the bytes behind it start with one. From these
three parts everything about the line can be read off. The line feeds of the
first part are those before the place, so the search through their offsets stops
at their number; the length of the first part is where the line starts; and the
line itself is what is shown. No word wraps as long as the length of the text
and one more fit into a word.
-/

namespace ProtocolCorpus

namespace Source

/-! ## The offsets of line feeds -/

theorem toNat_add_one
    {n : UInt32} (h : n.toNat + 1 < UInt32.size) :
    (n + 1).toNat = n.toNat + 1 := by
  rw [UInt32.toNat_add]
  exact Nat.mod_eq_of_lt h

theorem newlinesFrom_append (offset : Nat) (s t : Text) :
    newlinesFrom offset (s ++ t) = newlinesFrom offset s ++ newlinesFrom
    (offset + s.length) t := by
  induction s generalizing offset with
  | nil => rfl
  | cons b s ih =>
    have hnext : offset + 1 + s.length = offset + (b :: s).length := by
      rw [List.length_cons]
      omega
    rw [List.cons_append, newlinesFrom, newlinesFrom, ih, hnext]
    split
    · rfl
    · rfl

theorem length_newlinesFrom (offset : Nat) (t : Text) :
    (newlinesFrom offset t).length = t.count 0x0A := by
  induction t generalizing offset with
  | nil => rfl
  | cons b t ih =>
    rw [newlinesFrom]
    by_cases hb : b = 0x0A
    · simp [hb, ih]
    · simp [hb, ih]

theorem newlinesFrom_eq_nil
    {t : Text} (h : 0x0A ∉ t) (offset : Nat) :
    newlinesFrom offset t = [] := by
  rw [← List.length_eq_zero_iff, length_newlinesFrom]
  exact List.count_eq_zero.2 h

/-- The offsets are exact as long as they fit into words. -/
theorem map_toNat_newlinesFrom
    {offset : Nat} {t : Text} (h : offset + t.length ≤ UInt32.size) :
    (newlinesFrom offset t).map UInt32.toNat =
      t.findIdxs (· == 0x0A) offset := by
  induction t generalizing offset with
  | nil => rfl
  | cons b t ih =>
    rw [List.length_cons] at h
    have hrest : (newlinesFrom (offset + 1) t).map UInt32.toNat =
      t.findIdxs (· == 0x0A) (offset + 1) :=
      ih (by omega)
    have hword : (UInt32.ofNat offset).toNat = offset :=
      UInt32.toNat_ofNat_of_lt' (by omega)
    rw [newlinesFrom, List.findIdxs_cons]
    by_cases hb : b = 0x0A
    · simp [hb, hrest, hword]
    · simp [hb, hrest]

theorem mem_newlinesFrom_bounds
    {offset : Nat} {t : Text} (h : offset + t.length ≤ UInt32.size) {n : UInt32}
    (hn : n ∈ newlinesFrom offset t) :
    offset ≤ n.toNat ∧ n.toNat < offset + t.length := by
  have hmem : n.toNat ∈ t.findIdxs (· == 0x0A) offset := by
    rw [← map_toNat_newlinesFrom h]
    exact List.mem_map_of_mem hn
  exact ⟨List.ge_of_mem_findIdxs _ hmem, Nat.add_comm _ _ ▸
    List.lt_add_of_mem_findIdxs _ hmem⟩

/-! ## The search -/

/-- The search finds where a row of offsets is divided by an offset. -/
theorem countBefore_append
    {front back : List UInt32} {offset : UInt32}
    (hfront : ∀ n ∈ front, n < offset) (hback : ∀ n ∈ back, offset ≤ n)
    {low high : Nat} (hlow : low ≤ front.length) (hhigh : front.length ≤ high)
    (h : high ≤ (front ++ back).length) :
    countBefore (front ++ back) offset low high h = front.length := by
  fun_induction countBefore (front ++ back) offset low high h with
  | case1 low high h hlt hmiddle hbefore ih =>
    -- The offset in the middle is before, so it is one of the first row.
    apply ih _ hhigh
    by_contra hle
    rw [List.getElem_append_right (by omega)] at hbefore
    exact UInt32.not_lt.2 (hback _ (List.getElem_mem _)) hbefore
  | case2 low high h hlt hmiddle hbehind ih =>
    apply ih hlow
    by_contra hgt
    rw [List.getElem_append_left (by omega)] at hbehind
    exact hbehind (hfront _ (List.getElem_mem _))
  | case3 low high h hdone => omega

/-! ## The three parts of a content around a line -/

/-- The line feeds of the file were found in its content, whose length and one
more fit into a word. -/
structure File.Indexed (f : File) : Prop where
  newlines_eq : f.newlines = newlinesFrom 0 f.content
  length_lt : f.content.length + 1 < UInt32.size

/-- A line of the file, with all that stands before and behind it. -/
structure IsLine (f : File) (front line back : Text) : Prop where
  content_eq : f.content = front ++ line ++ back
  front_ends : ∀ b ∈ front.getLast?, b = 0x0A
  plain : 0x0A ∉ line
  back_starts : ∀ b ∈ back.head?, b = 0x0A

namespace IsLine

variable {f : File} {front line back : Text} {offset : UInt32}

theorem length_eq (h : IsLine f front line back) :
    f.content.length = front.length + line.length + back.length := by
  rw [h.content_eq, List.length_append, List.length_append]

theorem newlines_eq
    (h : IsLine f front line back) (hf : f.Indexed) :
    f.newlines = newlinesFrom 0 front ++ newlinesFrom
      (front.length + line.length) back := by
  rw [hf.newlines_eq, h.content_eq, newlinesFrom_append, newlinesFrom_append,
    newlinesFrom_eq_nil h.plain, List.append_nil, List.length_append,
    Nat.zero_add]

theorem toNat_number
    (h : IsLine f front line back) (hf : f.Indexed) :
    (UInt32.ofNat (front.count 0x0A + 1)).toNat = front.count 0x0A + 1 := by
  have hlength := hf.length_lt
  have hcount : front.count 0x0A ≤ front.length := List.count_le_length
  rw [h.length_eq] at hlength
  exact UInt32.toNat_ofNat_of_lt' (by omega)

theorem toNat_start
    (h : IsLine f front line back) (hf : f.Indexed) :
    (UInt32.ofNat front.length).toNat = front.length := by
  have hlength := hf.length_lt
  rw [h.length_eq] at hlength
  exact UInt32.toNat_ofNat_of_lt' (by omega)

theorem start_le
    (h : IsLine f front line back) (hf : f.Indexed)
    (hfrom : front.length ≤ offset.toNat) :
    UInt32.ofNat front.length ≤ offset := by
  rw [UInt32.le_iff_toNat_le, h.toNat_start hf]
  exact hfrom

/-- How far an offset is behind the start of the line. -/
theorem toNat_sub_start
    (h : IsLine f front line back) (hf : f.Indexed)
    (hfrom : front.length ≤ offset.toNat) :
    (offset - UInt32.ofNat front.length).toNat =
      offset.toNat - front.length := by
  rw [UInt32.toNat_sub_of_le _ _ (h.start_le hf hfrom), h.toNat_start hf]

theorem lineStart?_eq
    (h : IsLine f front line back) (hf : f.Indexed) :
    lineStart? f.newlines (front.count 0x0A) =
      some (UInt32.ofNat front.length) := by
  have hnewlines := h.newlines_eq hf
  rcases List.eq_nil_or_concat' front with rfl | ⟨t, b, rfl⟩
  · rfl
  · obtain rfl : b = 0x0A := h.front_ends b (by simp)
    have hlast : newlinesFrom 0 (t ++ [0x0A]) =
        newlinesFrom 0 t ++ [UInt32.ofNat t.length] := by
      rw [newlinesFrom_append, Nat.zero_add]
      rfl
    have hcount : (t ++ [0x0A]).count 0x0A = (newlinesFrom 0 t).length + 1 := by
      rw [length_newlinesFrom]
      simp
    rw [hnewlines, hcount, hlast, lineStart?]
    simp [UInt32.ofNat_add]

theorem lineStop_eq
    (h : IsLine f front line back) (hf : f.Indexed) :
    lineStop f.newlines f.content.length (front.count 0x0A) =
      front.length + line.length := by
  have hlength := hf.length_lt
  rw [h.length_eq] at hlength
  rw [lineStop, h.newlines_eq hf,
    List.getElem?_append_right (Nat.le_of_eq (length_newlinesFrom 0 front)),
    length_newlinesFrom, Nat.sub_self]
  cases back with
  | nil => simp [newlinesFrom, h.length_eq]
  | cons b t =>
    obtain rfl : b = 0x0A := h.back_starts b (by simp)
    exact UInt32.toNat_ofNat_of_lt' (by omega)

theorem line_eq
    (h : IsLine f front line back) (hf : f.Indexed) :
    f.line (UInt32.ofNat (front.count 0x0A + 1)) = line := by
  have hnumber := h.toNat_number hf
  have hne : UInt32.ofNat (front.count 0x0A + 1) ≠ 0 := by
    intro hzero
    rw [hzero] at hnumber
    simp at hnumber
  unfold File.line
  dsimp only
  rw [if_neg hne, hnumber, Nat.add_sub_cancel, h.lineStart?_eq hf,
    h.lineStop_eq hf]
  dsimp only
  rw [h.toNat_start hf, h.content_eq, ← List.length_append, List.take_left,
    List.drop_left]

/-- The line feeds before an offset in the line are those before the line. -/
theorem countBefore_eq
    (h : IsLine f front line back) (hf : f.Indexed)
    (hfrom : front.length ≤ offset.toNat)
    (hto : offset.toNat ≤ front.length + line.length) :
    countBefore f.newlines offset 0 f.newlines.length (Nat.le_refl _) =
      front.count 0x0A := by
  have hlength := hf.length_lt
  rw [h.length_eq] at hlength
  have hbefore : ∀ n ∈ newlinesFrom 0 front, n < offset := by
    intro n hn
    have hbounds := mem_newlinesFrom_bounds (by omega) hn
    rw [UInt32.lt_iff_toNat_lt]
    omega
  have hbehind : ∀ n ∈ newlinesFrom (front.length + line.length) back, offset ≤
      n := by
    intro n hn
    have hbounds := mem_newlinesFrom_bounds (by omega) hn
    rw [UInt32.le_iff_toNat_le]
    omega
  simp only [h.newlines_eq hf]
  rw [countBefore_append hbefore hbehind (Nat.zero_le _) (by simp),
    length_newlinesFrom]

theorem position_eq
    (h : IsLine f front line back) (hf : f.Indexed)
    (hfrom : front.length ≤ offset.toNat)
    (hto : offset.toNat ≤ front.length + line.length) :
    position f.newlines offset =
      ⟨UInt32.ofNat (front.count 0x0A + 1), offset - UInt32.ofNat front.length +
      1⟩ := by
  unfold position
  dsimp only
  rw [h.countBefore_eq hf hfrom hto, h.lineStart?_eq hf, Option.getD_some]

end IsLine

/-! ## The line around an offset -/

def lineBefore (content : Text) (offset : Nat) : Text :=
  (content.take offset).rtakeWhile (· != 0x0A)

def lineAfter (content : Text) (offset : Nat) : Text :=
  (content.drop offset).takeWhile (· != 0x0A)

/-- Every offset falls into a line. -/
theorem exists_isLine
    {f : File} {offset : Nat} (h : offset ≤ f.content.length) :
    ∃ front back,
      IsLine f front (lineBefore f.content offset ++ lineAfter f.content offset)
      back ∧
      f.content.take offset = front ++ lineBefore f.content offset ∧
      f.content.drop offset = lineAfter f.content offset ++ back ∧
      offset = front.length + (lineBefore f.content offset).length := by
  have htake : f.content.take offset = (f.content.take offset).rdropWhile
      (· != 0x0A) ++
      lineBefore f.content offset := List.rdropWhile_append_rtakeWhile.symm
  have hdrop : f.content.drop offset = lineAfter f.content offset ++
      (f.content.drop offset).dropWhile (· != 0x0A) :=
      List.takeWhile_append_dropWhile.symm
  have hlength := congrArg List.length htake
  rw [List.length_append, List.length_take, Nat.min_eq_left h] at hlength
  refine ⟨_, _, ?_, htake, hdrop, hlength⟩
  constructor
  case content_eq =>
    conv_lhs => rw [← List.take_append_drop offset f.content, htake, hdrop]
    simp only [List.append_assoc]
  case front_ends =>
    intro b hb
    have hne : (f.content.take offset).rdropWhile (· != 0x0A) ≠ [] := by
      intro hnil
      simp [hnil] at hb
    have hlast := List.rdropWhile_last_not _ _ hne
    rw [List.getLast?_eq_some_getLast hne, Option.mem_some_iff] at hb
    simpa [hb] using hlast
  case plain =>
    rw [List.mem_append, not_or]
    constructor
    · intro hmem
      simpa using List.mem_rtakeWhile_imp hmem
    · intro hmem
      simpa using List.mem_takeWhile_imp hmem
  case back_starts =>
    intro b hb
    have hhead := List.head?_dropWhile_not (· != 0x0A) (f.content.drop offset)
    rw [Option.mem_def.1 hb] at hhead
    simpa using hhead

structure Locates (f : File) (offset : UInt32) (p : Position) : Prop where
  line_eq : p.line.toNat = 1 + (f.content.take offset.toNat).count 0x0A
  column_eq : p.column.toNat = 1 + (lineBefore f.content offset.toNat).length
  /-- The line is what stands between the line feeds around the offset. -/
  text_eq : f.line p.line = lineBefore f.content offset.toNat ++
    lineAfter f.content offset.toNat
  column_le : p.column.toNat - 1 ≤ (f.line p.line).length
  /-- From the column on, the line is what follows the offset. -/
  rest_prefix : (f.line p.line).drop (p.column.toNat - 1) <+:
    f.content.drop offset.toNat

/-- No word wraps on the way from an offset behind `before` line feeds to its
position. -/
structure Exact (newlines : List UInt32) (offset : UInt32)
    (before : Nat) : Prop where
  line_lt : before + 1 < UInt32.size
  column_lt : ∃ start, lineStart? newlines before = some start ∧
    start ≤ offset ∧
    (offset - start).toNat + 1 < UInt32.size

namespace File.Indexed

variable {f : File} {offset : UInt32}

theorem exact
    (hf : f.Indexed) (h : offset.toNat ≤ f.content.length) :
    Exact f.newlines offset
      (countBefore f.newlines offset 0 f.newlines.length (Nat.le_refl _)) := by
  obtain ⟨front, back, hline, -, -, hoffset⟩ := exists_isLine h
  have hlength := hf.length_lt
  have hnumber := hline.toNat_number hf
  have hfrom : front.length ≤ offset.toNat := by omega
  rw [hline.countBefore_eq hf hfrom (by rw [List.length_append]; omega)]
  constructor
  case line_lt =>
    rw [← hnumber]
    exact UInt32.toNat_lt_size _
  case column_lt =>
    refine ⟨_, hline.lineStart?_eq hf, hline.start_le hf hfrom, ?_⟩
    rw [hline.toNat_sub_start hf hfrom]
    omega

theorem locates
    (hf : f.Indexed) (h : offset.toNat ≤ f.content.length) :
    Locates f offset (position f.newlines offset) := by
  obtain ⟨front, back, hline, htake, hdrop, hoffset⟩ := exists_isLine h
  have hlength := hf.length_lt
  have hfrom : front.length ≤ offset.toNat := by omega
  have htext := hline.line_eq hf
  have hcolumn : (offset - UInt32.ofNat front.length + 1).toNat =
      1 + (lineBefore f.content offset.toNat).length := by
    have hsub := hline.toNat_sub_start hf hfrom
    rw [toNat_add_one (by omega), hsub]
    omega
  rw [hline.position_eq hf hfrom (by rw [List.length_append]; omega)]
  constructor
  case line_eq =>
    have hplain : (lineBefore f.content offset.toNat).count 0x0A = 0 :=
      List.count_eq_zero.2 fun hmem => hline.plain (List.mem_append_left _ hmem)
    rw [hline.toNat_number hf, htake, List.count_append, hplain]
    omega
  case column_eq => exact hcolumn
  case text_eq => exact htext
  case column_le =>
    rw [htext, hcolumn, List.length_append]
    omega
  case rest_prefix =>
    rw [htext, hcolumn, Nat.add_sub_cancel_left, List.drop_left, hdrop]
    exact List.prefix_append _ _

/-- An offset is told by its position. -/
theorem position_injective
    (hf : f.Indexed) {other : UInt32} (h : offset.toNat ≤ f.content.length)
    (hother : other.toNat ≤ f.content.length)
    (heq : position f.newlines offset = position f.newlines other) :
    offset = other := by
  have hline := congrArg (fun p => p.line.toNat) heq
  have hcolumn := congrArg Position.column heq
  unfold position at hline hcolumn
  dsimp only at hline hcolumn
  -- The line tells how many line feeds stand before the offset, and with them
  -- where the line starts.
  rw [UInt32.toNat_ofNat_of_lt' (hf.exact h).line_lt,
    UInt32.toNat_ofNat_of_lt' (hf.exact hother).line_lt,
    Nat.add_right_cancel_iff] at hline
  rw [hline] at hcolumn
  simpa using hcolumn

end File.Indexed

/-! ## All lines -/

/-- The lines from the start of a line on, joined, are the rest of the content.
-/
theorem File.Indexed.join_lines_from
    {f : File} (hf : f.Indexed) {front rest : Text}
    (hcontent : f.content = front ++ rest)
    (hends : ∀ b ∈ front.getLast?, b = 0x0A) :
    Text.join "\n" ((List.range (rest.count 0x0A + 1)).map fun k =>
      f.line (UInt32.ofNat (front.count 0x0A + k + 1))) = rest := by
  -- Each line feed of the rest ends a line, behind which the same holds again.
  induction hcount : rest.count 0x0A generalizing front rest with
  | zero =>
    have hline : IsLine f front rest [] :=
      ⟨by rw [hcontent, List.append_nil], hends,
        List.count_eq_zero.1 hcount, by simp⟩
    exact hline.line_eq hf
  | succ n ih =>
    obtain ⟨line, back, rfl, hplain⟩ : ∃ line back, rest =
      line ++ 0x0A :: back ∧ 0x0A ∉ line :=
      List.eq_append_cons_of_mem (List.count_pos_iff.1 (by omega))
    have hline : IsLine f front line (0x0A :: back) :=
      ⟨by rw [hcontent, List.append_assoc], hends, hplain, by simp⟩
    have hback : back.count 0x0A = n := by
      simpa [List.count_eq_zero.2 hplain] using hcount
    have hfront : (front ++ line ++ [0x0A]).count 0x0A =
        front.count 0x0A + 1 := by
      simp [List.count_eq_zero.2 hplain]
    have hsplit : f.content = front ++ line ++ [0x0A] ++ back := by
      simp [hcontent]
    have hrest := ih hsplit (by simp) hback
    have hshift : (fun k => f.line (UInt32.ofNat (front.count 0x0A + k + 1))) ∘
        Nat.succ =
        fun k =>
          f.line (UInt32.ofNat
          ((front ++ line ++ [0x0A]).count 0x0A + k + 1)) := by
      funext k
      rw [hfront, Nat.add_right_comm _ 1 k]
      rfl
    rw [List.range_succ_eq_map, List.map_cons, List.map_map, hshift,
      Nat.add_zero, hline.line_eq hf]
    rw [List.range_succ_eq_map, List.map_cons] at hrest ⊢
    rw [Text.join, hrest, List.append_assoc]
    rfl

/-! ## Files as they are added -/

/-- Positions and lines of a file say where its bytes are. -/
structure Navigable (f : File) : Prop where
  /-- The offsets of the line feeds, the starts of lines and the numbers of
  lines are exact. -/
  newlines_eq : f.newlines.map UInt32.toNat = f.content.findIdxs (· == 0x0A)
  newlines_lt : ∀ n ∈ f.newlines, n.toNat + 1 < UInt32.size
  lines_lt : f.content.count 0x0A + 1 < UInt32.size
  locates : ∀ offset : UInt32, offset.toNat ≤ f.content.length →
    Locates f offset (position f.newlines offset)
  exact : ∀ offset : UInt32, offset.toNat ≤ f.content.length →
    Exact f.newlines offset
    (countBefore f.newlines offset 0 f.newlines.length (Nat.le_refl _))
  injective : ∀ offset other : UInt32, offset.toNat ≤ f.content.length →
    other.toNat ≤ f.content.length →
    position f.newlines offset = position f.newlines other → offset = other
  join_lines :
    Text.join "\n" ((List.range (f.content.count 0x0A + 1)).map fun k =>
    f.line (UInt32.ofNat (k + 1))) = f.content

theorem File.Indexed.navigable
    {f : File} (hf : f.Indexed) :
    Navigable f := by
  have hlength := hf.length_lt
  constructor
  case newlines_eq =>
    rw [hf.newlines_eq]
    exact map_toNat_newlinesFrom (by omega)
  case newlines_lt =>
    intro n hn
    have hbounds := mem_newlinesFrom_bounds (by omega) (hf.newlines_eq ▸ hn)
    omega
  case lines_lt =>
    have hcount : f.content.count 0x0A ≤ f.content.length :=
      List.count_le_length
    omega
  case locates => exact fun offset h => hf.locates h
  case exact => exact fun offset h => hf.exact h
  case injective =>
    exact fun offset other h hother heq => hf.position_injective h hother heq
  case join_lines =>
    have hcontent : f.content = [] ++ f.content := rfl
    simpa only [List.count_nil, Nat.zero_add]
      using hf.join_lines_from hcontent (by simp)

theorem Files.resolve_add
    {s : Files} (hsize : s.size < UInt32.size) (path content : Text)
    (treatment : Treatment) (start stop : UInt32) :
    (s.add path content treatment).1.resolve
      ⟨(s.add path content treatment).2.id, start, stop⟩ =
      (position (newlinesFrom 0 content) start,
      position (newlinesFrom 0 content) stop) := by
  have hid : (UInt32.ofNat s.files.size).toNat = s.files.size :=
    UInt32.toNat_ofNat_of_lt' hsize
  simp [resolve, get?, add, hid]

/-- The lines and columns of a file that is added say where its bytes are, if
its length and one more fit into a word; spans are resolved by them as long as
the number of files fits into a word. -/
theorem navigable_add
    (s : Files) (path content : Text) (treatment : Treatment)
    (hlength : content.length < UInt32.size - 1) :
    (s.add path content treatment).2.content = content ∧
      (s.add path content treatment).2.newlines = newlinesFrom 0 content ∧
      Navigable (s.add path content treatment).2 ∧
      (s.size < UInt32.size → ∀ start stop,
        (s.add path content treatment).1.resolve
        ⟨(s.add path content treatment).2.id, start, stop⟩ =
          (position (newlinesFrom 0 content) start,
          position (newlinesFrom 0 content) stop)) := by
  have hf : (s.add path content treatment).2.Indexed := by
    refine ⟨rfl, ?_⟩
    change content.length + 1 < UInt32.size
    omega
  refine ⟨rfl, rfl, hf.navigable, ?_⟩
  intro hsize start stop
  exact Files.resolve_add hsize path content treatment start stop

/-- A content with a line that is empty and a last line without a line feed. -/
def verse : Text := "ab\ncde\n\nf"

theorem navigable_verse :
    verse.length < UInt32.size - 1 ∧
    Navigable (({} : Files).add "doc.xml" verse .fromMemory).2 ∧
      [0, 2, 3, 5, 7, 8, 9].map (position (newlinesFrom 0 verse)) =
        [⟨1, 1⟩, ⟨1, 3⟩, ⟨2, 1⟩, ⟨2, 3⟩, ⟨3, 1⟩, ⟨4, 1⟩, ⟨4, 2⟩] ∧
      [0, 1, 2, 3, 4, 5].map
        (({} : Files).add "doc.xml" verse .fromMemory).2.line =
        ["", "ab", "cde", "", "f", ""].map Text.ofString := by
  have hlength : verse.length < UInt32.size - 1 := by decide
  have hadd := navigable_add {} "doc.xml" verse .fromMemory hlength
  exact ⟨hlength, hadd.2.2.1, by decide +kernel, by decide +kernel⟩

end Source

end ProtocolCorpus
