import ProtocolCorpus.Proofs.Numerals
import ProtocolCorpus.Proofs.Yaml.PlainScalars
import ProtocolCorpus.Yaml.Parser

/-!
# Reading quoted scalars

A text between quotes is read as it was: single quotes go on over the lines of
the text, double quotes escape what would end a line.
-/

namespace ProtocolCorpus

namespace Yaml

open Cursor

variable {c : Char} {cs r : List Char} {column line : Nat} {fresh : Bool}
  {anchors : List (Text × Node)}

/-! ## Indented lines -/

variable {run : List Char} {before : Option Nat} {n : Nat}

/-- Characters on indented lines: every character behind a line end is preceded
by blanks. -/
def indentChars (indent : Nat) (shown : Char → List Char)
    (atStart : Bool) : List Char → List Char
  | [] => []
  | c :: cs =>
    if isBreak c then c :: indentChars indent shown true cs
    else (if atStart then List.replicate indent ' ' else []) ++ shown c ++
      indentChars indent shown false cs

variable {indent : Nat} {shown : Char → List Char}

theorem ofChars_replicate_blank (n : Nat) :
    Text.ofChars (List.replicate n ' ') = Text.blanks n := by
  induction n with
  | zero => rfl
  | succ n ih => exact congrArg (0x20 :: ·) ih

theorem indentLines_map_char
    {shownText : Scalar → Text}
    (hshown : ∀ c, shownText (.char c) = Text.ofChars (shown c))
    (atStart : Bool) (cs : List Char) :
    indentLines indent shownText atStart (cs.map .char) =
      Text.ofChars (indentChars indent shown atStart cs) := by
  induction cs generalizing atStart with
  | nil => rfl
  | cons c cs ih =>
    rw [List.map_cons, indentLines, indentChars, isBreak_eq_isBreakCode, hshown]
    change (if isBreakCode c.toNat = true then _ else _) = _
    by_cases hbreak : isBreakCode c.toNat = true
    · rw [if_pos hbreak, if_pos hbreak, ih]
      rfl
    · rw [if_neg hbreak, if_neg hbreak, ih, Text.ofChars_append,
        Text.ofChars_append]
      cases atStart with
      | false => rfl
      | true => rw [if_pos rfl, if_pos rfl, ofChars_replicate_blank]

theorem indentChars_lineEnd
    (hc : isBreak c = true) (atStart : Bool) :
    indentChars indent shown atStart (c :: cs) =
      c :: indentChars indent shown true cs := by
  rw [indentChars, if_pos hc]

theorem indentChars_char
    (hc : isBreak c = false) :
    indentChars indent shown false (c :: cs) =
      shown c ++ indentChars indent shown false cs := by
  rw [indentChars, hc, if_neg Bool.noConfusion, if_neg Bool.noConfusion,
    List.nil_append]

theorem indentChars_start
    (hc : isBreak c = false) :
    indentChars indent shown true (c :: cs) =
      List.replicate indent ' ' ++ indentChars indent shown false
      (c :: cs) := by
  rw [indentChars_char hc, indentChars, hc, if_neg Bool.noConfusion, if_pos rfl,
    List.append_assoc]

theorem indentChars_lineEnds
    {bs : List Char} (hbs : ∀ c ∈ bs, isBreak c = true) (hne : bs ≠ [])
    (atStart : Bool) :
    indentChars indent shown atStart (bs ++ cs) =
      bs ++ indentChars indent shown true cs := by
  induction bs generalizing atStart with
  | nil => exact absurd rfl hne
  | cons b bs ih =>
    obtain ⟨hb, hrest⟩ := List.forall_mem_cons.1 hbs
    rw [List.cons_append, indentChars_lineEnd hb]
    by_cases hnil : bs = []
    · subst hnil
      rfl
    · rw [ih hrest hnil, List.cons_append]

/-- A run of characters that show themselves and end no line. -/
theorem indentChars_run (hrun : ∀ c ∈ run, isBreak c = false ∧ shown c = [c]) :
    indentChars indent shown false (run ++ cs) =
    run ++ indentChars indent shown false cs := by
  induction run with
  | nil => rfl
  | cons c run ih =>
    obtain ⟨⟨hbreak, hshow⟩, hrest⟩ := List.forall_mem_cons.1 hrun
    rw [List.cons_append, indentChars_char hbreak, hshow, ih hrest]
    rfl

theorem length_le_length_indentChars
    (indent : Nat) (hshown : ∀ c, shown c ≠ []) (atStart : Bool)
    (cs : List Char) :
    cs.length ≤ (indentChars indent shown atStart cs).length := by
  induction cs generalizing atStart with
  | nil => exact Nat.le_refl 0
  | cons c cs ih =>
    have hpos := List.length_pos_iff.2 (hshown c)
    rw [indentChars]
    split
    · have hrest := ih true
      simp only [List.length_cons]
      omega
    · have hrest := ih false
      simp only [List.length_append, List.length_cons]
      omega

/-! ## Single quotes -/

def singleShown (c : Char) : List Char :=
  if c = '\x27' then ['\x27', '\x27'] else [c]

theorem takeWhile_isBlank_of_startsWord (hrun : ∀ c ∈ run, c = ' ')
    (hr : startsWord r = true) :
    (run ++ r).takeWhile isBlank = run := by
  apply takeWhile_isBlank hrun
  intro d hd
  obtain ⟨ds, rfl⟩ := List.head?_eq_some_iff.1 hd
  obtain ⟨hblank, htab, -⟩ := startsWord_cons_iff.1 hr
  simp [isBlank, hblank, htab]

theorem singleRest_close
    (hmark : atDocumentMark ⟨'\x27' :: r, column, line, fresh, anchors⟩ = false)
    (hr : r.head? ≠ some '\x27') (fuel : Nat) :
    singleRest (fuel + 1) ⟨'\x27' :: r, column, line, fresh, anchors⟩ =
      some ([], ⟨r, column + 1, line, false, anchors⟩) := by
  rw [singleRest, hmark, if_neg Bool.noConfusion]
  cases r with
  | nil => rfl
  | cons d r =>
    dsimp only
    split
    next h => cases h
    next h =>
      obtain ⟨-, htail⟩ := List.cons.inj h
      exact absurd (congrArg List.head? htail) hr
    · rfl
    next hquote h => exact (hquote (List.cons.inj h).1.symm).elim

theorem singleRest_quote
    (hmark : atDocumentMark
      ⟨'\x27' :: '\x27' :: r, column, line, fresh, anchors⟩ = false)
      (fuel : Nat) :
    singleRest (fuel + 1)
      ⟨'\x27' :: '\x27' :: r, column, line, fresh, anchors⟩ =
      (singleRest fuel ⟨r, column + 2, line, false, anchors⟩).map fun x =>
      ('\x27' :: x.1, x.2) := by
  rw [singleRest, hmark]
  rfl

theorem singleRest_char
    (hmark : atDocumentMark ⟨c :: r, column, line, fresh, anchors⟩ = false)
    (hquote : c ≠ '\x27') (hc : startsWord (c :: r) = true) (fuel : Nat) :
    singleRest (fuel + 1) ⟨c :: r, column, line, fresh, anchors⟩ =
      (singleRest fuel ⟨r, column + 1, line, false, anchors⟩).map fun x =>
      (c :: x.1, x.2) := by
  rw [singleRest, hmark, if_neg Bool.noConfusion]
  dsimp only
  split
  next h => cases h
  next h => exact absurd (List.cons.inj h).1 hquote
  next h => exact absurd (List.cons.inj h).1 hquote
  next h =>
    obtain ⟨rfl, rfl⟩ := List.cons.inj h
    obtain ⟨hblank, htab, hbreak⟩ := startsWord_cons_iff.1 hc
    rw [if_neg (by simp [isBlank, hblank, htab, hbreak])]
    rfl

theorem quotedWhite?_blanks (hrun : ∀ c ∈ run, c = ' ')
    (hr : startsWord r = true) :
    quotedWhite? ⟨run ++ r, column, line, fresh, anchors⟩ =
      some (run, ⟨r, column + run.length, line, fresh, anchors⟩) := by
  rw [quotedWhite?, takeWhile_isBlank_of_startsWord hrun hr, skip_append,
    takeBreak?_of_startsWord hr]

/-- Line ends are read as they are, and the indentation behind them is skipped.
-/
theorem quotedWhite?_lineEnds {b : Char} {bs : List Char}
    (hbs : ∀ c ∈ b :: bs, isLineEnd c = true) (hb : b ≠ '\n')
    (hr : startsWord r = true) (j : Nat) :
    quotedWhite? ⟨b :: (bs ++ (List.replicate j ' ' ++ r)), column, line,
      fresh, anchors⟩ =
      some (b :: bs, ⟨r, j, line + 1 + bs.length, true, anchors⟩) := by
  have hend := hbs b List.mem_cons_self
  have hblank : isBlank b = false := by
    rcases isLineEnd_iff.1 hend with rfl | rfl | rfl <;> rfl
  have hfold : foldBreaks (b :: bs) = b :: bs := by
    unfold foldBreaks
    split
    next h => cases h
    next h => exact absurd (List.cons.inj h).1 hb
    next h => exact absurd (List.cons.inj h).1 hb
    · rfl
  have hgap :
      lineGap? 0 false ((b :: (bs ++ (List.replicate j ' ' ++ r))).length + 1)
      ⟨b :: (bs ++ (List.replicate j ' ' ++ r)), column, line, fresh, anchors⟩ =
        some (b :: bs, ⟨r, j, line + 1 + bs.length, true, anchors⟩) := by
    apply lineGap?_lineEnds hbs hr j
    simp only [List.length_cons, List.length_append, List.length_replicate]
    omega
  have hrun : (b :: (bs ++ (List.replicate j ' ' ++ r))).takeWhile isBlank =
      [] := by
    rw [List.takeWhile_cons, hblank, if_neg Bool.noConfusion]
  have hskip :
      skip ⟨b :: (bs ++ (List.replicate j ' ' ++ r)), column, line,
      fresh, anchors⟩
      ([] : List Char).length =
      ⟨b :: (bs ++ (List.replicate j ' ' ++ r)), column, line, fresh,
      anchors⟩ := rfl
  rw [quotedWhite?, hrun, hskip, takeBreak?_lineEnd hend]
  dsimp only
  rw [hgap]
  exact congrArg (fun white => some (white, _)) hfold

theorem singleRest_white {white : List Char} {next : Cursor}
    (hc : (isBlank c || isBreak c) = true)
    (hwhite : quotedWhite? ⟨c :: r, column, line, fresh, anchors⟩ =
      some (white, next))
    (hmark : atDocumentMark ⟨c :: r, column, line, fresh, anchors⟩ = false)
    (fuel : Nat) :
    singleRest (fuel + 1) ⟨c :: r, column, line, fresh, anchors⟩ =
      (singleRest fuel next).map fun x => (white ++ x.1, x.2) := by
  rw [singleRest, hmark, if_neg Bool.noConfusion]
  dsimp only
  split
  next h => cases h
  next h => exact absurd hc (by rw [(List.cons.inj h).1]; decide)
  next h => exact absurd hc (by rw [(List.cons.inj h).1]; decide)
  next h =>
    obtain ⟨rfl, rfl⟩ := List.cons.inj h
    rw [if_pos hc, hwhite]
    change (singleRest fuel next).bind _ = _
    cases singleRest fuel next <;> rfl

theorem quotableText_suffix (xs : List Char)
    (h : QuotableText before (xs ++ cs)) :
    QuotableText ((xs.map Char.toNat).getLast?.or before) cs := by
  refine ⟨fun c hc => h.printable c (List.mem_append_right xs hc), ?_⟩
  have htight := h.tight
  rw [List.map_append] at htight
  exact anyAt_eq_false_of_append htight

theorem isBreak_eq_false_of_blank
    (h : QuotableText (some 0x20) cs) : ∀ c ∈ cs.head?, isBreak c = false := by
  intro c hc
  obtain ⟨cs, rfl⟩ := List.head?_eq_some_iff.1 hc
  have htight := h.tight
  rw [List.map_cons, anyAt, Bool.or_eq_false_iff, isLooseBlank] at htight
  rw [isBreak_eq_isBreakCode]
  simpa using (Bool.or_eq_false_iff.1 htight.1).2

theorem ne_blank_of_lineEnd
    {b : Char} (hb : isBreak b = true) (h : QuotableText (some b.toNat) cs) :
    ∀ c ∈ cs.head?, c ≠ ' ' := by
  intro c hc hblank
  obtain ⟨cs, rfl⟩ := List.head?_eq_some_iff.1 hc
  subst hblank
  have htight := h.tight
  rw [isBreak_eq_isBreakCode] at hb
  rw [List.map_cons, anyAt, Bool.or_eq_false_iff, isLooseBlank] at htight
  simp [hb] at htight

/-- What stands behind a run of blanks or of line ends, up to the closing quote,
is neither. -/
theorem startsWord_single (h : QuotableText before cs)
    (hhead : ∀ c ∈ cs.head?, c ≠ ' ' ∧ isBreak c = false) (indent : Nat)
    (r : List Char) :
    startsWord (indentChars indent singleShown false cs ++ '\x27' :: r) =
      true := by
  cases cs with
  | nil => rfl
  | cons c cs =>
    obtain ⟨hblank, hbreak⟩ := hhead c rfl
    have hprintable := (h.printable c List.mem_cons_self).1
    rw [indentChars_char hbreak, singleShown]
    by_cases hquote : c = '\x27'
    · rw [if_pos hquote]
      rfl
    · rw [if_neg hquote]
      change startsWord (c :: _) = true
      rw [startsWord, isBlank_eq_false hprintable hblank, hbreak]
      rfl

/-- A line that goes on is indented; the closing quote is not. -/
theorem exists_indentChars_true
    (hhead : ∀ c ∈ cs.head?, isBreak c = false) (indent : Nat)
    (shown : Char → List Char) :
    ∃ j, indentChars indent shown true cs = List.replicate j ' ' ++
      indentChars indent shown false cs ∧
      (cs ≠ [] → j = indent) := by
  cases cs with
  | nil => exact ⟨0, rfl, fun h => absurd rfl h⟩
  | cons c cs => exact ⟨indent, indentChars_start (hhead c rfl), fun _ => rfl⟩

/-- One step of the reader takes a run of characters and leaves the rest of the
text as it was written. -/
def SingleStep (indent : Nat) (r : List Char) (anchors : List (Text × Node))
    (cs : List Char) (s : Cursor) : Prop :=
  ∃ run rest before column line fresh, cs = run ++ rest ∧ run ≠ [] ∧
    QuotableText before rest ∧
    (rest ≠ [] → 0 < column) ∧ ∀ fuel, singleRest (fuel + 1) s =
      (singleRest fuel
      ⟨indentChars indent singleShown false rest ++ '\x27' :: r, column, line,
      fresh, anchors⟩).map
        fun x => (run ++ x.1, x.2)

theorem singleStep_lineEnd (hcs : QuotableText before (c :: cs))
    (hc : isBreak c = true) (hindent : 0 < indent) (hcolumn : 0 < column) :
    SingleStep indent r anchors (c :: cs)
      ⟨indentChars indent singleShown false (c :: cs) ++ '\x27' :: r, column,
      line, fresh, anchors⟩ := by
  obtain ⟨bs, rest, rfl, hbs, hrest⟩ := exists_eq_run_append isBreak cs
  have hall : ∀ b ∈ c :: bs, isBreak b = true :=
    List.forall_mem_cons.2 ⟨hc, hbs⟩
  have hends : ∀ b ∈ c :: bs, isLineEnd b = true := by
    intro b hb
    exact isLineEnd_of_isBreak (hall b hb)
      (.inl (hcs.printable b (List.mem_append_left rest hb)).1)
  have hline : c ≠ '\n' := (hcs.printable c List.mem_cons_self).2
  rw [← List.cons_append] at hcs ⊢
  have hnext := quotableText_suffix _ hcs
  rw [List.getLast?_map, List.getLast?_eq_some_getLast (List.cons_ne_nil c bs)]
    at hnext
  have hhead := ne_blank_of_lineEnd (hall _ (List.getLast_mem _)) hnext
  have hstart :=
    startsWord_single hnext (fun d hd => ⟨hhead d hd, hrest d hd⟩) indent r
  obtain ⟨j, hj, hjpos⟩ := exists_indentChars_true hrest indent singleShown
  refine ⟨c :: bs, rest, _, j, line + 1 + bs.length, true, rfl,
    List.cons_ne_nil c bs, hnext, ?_, ?_⟩
  · intro hne
    rwa [hjpos hne]
  · rw [indentChars_lineEnds hall (List.cons_ne_nil c bs), hj,
      List.append_assoc, List.append_assoc]
    exact singleRest_white (by rw [hc, Bool.or_true])
      (quotedWhite?_lineEnds hends hline hstart j)
      (atDocumentMark_of_pos hcolumn)

theorem singleStep_blank (hcs : QuotableText before (' ' :: cs))
    (hcolumn : 0 < column) :
    SingleStep indent r anchors (' ' :: cs)
      ⟨indentChars indent singleShown false (' ' :: cs) ++ '\x27' :: r, column,
      line, fresh, anchors⟩ := by
  obtain ⟨run, rest, rfl, hrun, hrest⟩ := exists_eq_run_append (· == ' ') cs
  have hblanks : ∀ b ∈ ' ' :: run, b = ' ' :=
    List.forall_mem_cons.2 ⟨rfl, fun b hb => eq_of_beq (hrun b hb)⟩
  have hne : ' ' :: run ≠ [] := List.cons_ne_nil ' ' run
  rw [← List.cons_append] at hcs ⊢
  have hnext := quotableText_suffix _ hcs
  rw [List.getLast?_map, List.getLast?_eq_some_getLast hne,
    hblanks _ (List.getLast_mem hne)] at hnext
  have hbreak := isBreak_eq_false_of_blank hnext
  have hstart :=
    startsWord_single hnext
      (fun d hd => ⟨by simpa using hrest d hd, hbreak d hd⟩) indent r
  refine ⟨' ' :: run, rest, _, column + (' ' :: run).length, line, fresh, rfl,
    hne, hnext, fun _ => by omega, ?_⟩
  rw [indentChars_run
    fun b hb => by rw [hblanks b hb]; exact ⟨rfl, rfl⟩, List.append_assoc]
  exact singleRest_white rfl (quotedWhite?_blanks hblanks hstart)
    (atDocumentMark_of_pos hcolumn)

theorem singleStep_char (hcs : QuotableText before (c :: cs))
    (hc : isBreak c = false) (hblank : c ≠ ' ') (hcolumn : 0 < column) :
    SingleStep indent r anchors (c :: cs)
      ⟨indentChars indent singleShown false (c :: cs) ++ '\x27' :: r, column,
      line, fresh, anchors⟩ := by
  have hnext : QuotableText (some c.toNat) cs := quotableText_suffix [c] hcs
  have hprintable := (hcs.printable c List.mem_cons_self).1
  rw [indentChars_char hc, singleShown]
  by_cases hquote : c = '\x27'
  · subst hquote
    refine ⟨['\x27'], cs, _, column + 2, line, false,
      rfl, by simp, hnext, fun _ => by omega, ?_⟩
    exact singleRest_quote (atDocumentMark_of_pos hcolumn)
  · have hstart :
        startsWord
        (c :: (indentChars indent singleShown false cs ++ '\x27' :: r)) =
        true := by
      rw [startsWord, isBlank_eq_false hprintable hblank, hc]
      rfl
    refine ⟨[c], cs, _, column + 1, line, false,
      rfl, by simp, hnext, fun _ => by omega, ?_⟩
    rw [if_neg hquote]
    exact singleRest_char (atDocumentMark_of_pos hcolumn) hquote hstart

/-- A text between single quotes is read up to the closing quote. -/
theorem singleRest_single (hcs : QuotableText before cs) (hindent : 0 < indent)
    (hr : r.head? ≠ some '\x27') (hcolumn : cs ≠ [] → 0 < column) {fuel : Nat}
    (hfuel : cs.length < fuel) :
    ∃ column' line', singleRest fuel
        ⟨indentChars indent singleShown false cs ++ '\x27' :: r, column, line,
        fresh, anchors⟩ =
      some (cs, ⟨r, column', line', false, anchors⟩) := by
  induction hlength : cs.length using Nat.strongRecOn
    generalizing cs before fuel column line fresh with
  | ind n ih =>
    obtain ⟨fuel, rfl⟩ : ∃ k, fuel = k + 1 := ⟨fuel - 1, by omega⟩
    cases cs with
    | nil =>
      refine ⟨column + 1, line, singleRest_close ?_ hr fuel⟩
      rw [atDocumentMark]
      exact Bool.and_false _
    | cons c cs =>
      have hpos := hcolumn (List.cons_ne_nil c cs)
      have hstep : SingleStep indent r anchors (c :: cs)
          ⟨indentChars indent singleShown false (c :: cs) ++ '\x27' :: r,
          column, line, fresh, anchors⟩ := by
        by_cases hbreak : isBreak c = true
        · exact singleStep_lineEnd hcs hbreak hindent hpos
        · rw [Bool.not_eq_true] at hbreak
          by_cases hblank : c = ' '
          · subst hblank
            exact singleStep_blank hcs hpos
          · exact singleStep_char hcs hbreak hblank hpos
      obtain ⟨run, rest, _, column₁, line₁, fresh₁, hsplit, hne, hrest, hcolumn,
        hread⟩ := hstep
      have hshorter : rest.length < n := by
        have hlengths := congrArg List.length hsplit
        have hrun := List.length_pos_iff.2 hne
        rw [List.length_append] at hlengths
        omega
      obtain ⟨column', line', hbehind⟩ : ∃ column' line', singleRest fuel
          ⟨indentChars indent singleShown false rest ++ '\x27' :: r, column₁,
          line₁, fresh₁, anchors⟩ =
            some (rest, ⟨r, column', line', false, anchors⟩) :=
        ih rest.length hshorter hrest hcolumn (by omega) rfl
      refine ⟨column', line', ?_⟩
      rw [hread, hbehind, hsplit]
      rfl

theorem quoted?_single
    (hcs : QuotableText none cs) (hindent : 0 < indent)
    (hr : r.head? ≠ some '\x27') :
    ∃ column' line', quoted?
        ⟨'\x27' :: (indentChars indent singleShown false cs ++ '\x27' :: r),
        column, line, fresh, anchors⟩ =
      some (.scalar none false (textOf cs),
        ⟨r, column', line', false, anchors⟩) := by
  have hfuel : cs.length <
      ('\x27' ::
      (indentChars indent singleShown false cs ++ '\x27' :: r)).length + 1 := by
    have hshown : ∀ c, singleShown c ≠ [] := by
      intro c
      rw [singleShown]
      split <;> exact List.cons_ne_nil _ _
    have hlength := length_le_length_indentChars indent hshown false cs
    simp only [List.length_cons, List.length_append]
    omega
  obtain ⟨column', line', hread⟩ : ∃ column' line', singleRest _
      ⟨indentChars indent singleShown false cs ++ '\x27' :: r, column + 1, line,
      false, anchors⟩ =
        some (cs, ⟨r, column', line', false, anchors⟩) :=
    singleRest_single hcs hindent hr (fun _ => Nat.succ_pos column) hfuel
  exact ⟨column', line', congrArg (Option.map _) hread⟩

/-! ## Double quotes -/

/-- How a character stands between double quotes. -/
inductive Shows (c : Char) : List Char → Prop
  | itself (hprintable : isPrintable c.toNat = true)
  (hbreak : isBreak c = false) (hquote : c ≠ '\x22')
      (hslash : c ≠ '\\') : Shows c [c]
  | letter (e : Char) (hallowed : isAllowed e = true)
      (hbreak : isBreak e = false) (hdigits : escapeDigits e = 0)
      (hc : escaped? e = some c) : Shows c ['\\', e]
  | digits (e : Char) (ds : List Char) (hallowed : ∀ d ∈ e :: ds, isAllowed d =
      true) (hbreak : isBreak e = false)
      (hne : ds ≠ []) (hdigits : escapeDigits e = ds.length)
      (hc : hexChar? ds = some c) :
      Shows c ('\\' :: e :: ds)

theorem digitValue?_upperByte (b : UInt8) :
    Text.digitValue? (Text.upperByte b) = Text.digitValue? b := by
  have hall : ∀ n < 256, Text.digitValue? (Text.upperByte (UInt8.ofNat n)) =
      Text.digitValue? (UInt8.ofNat n) := by decide +kernel
  have hbyte := hall b.toNat b.toNat_lt
  rwa [UInt8.ofNat_toNat] at hbyte

theorem natOfDigits?_map_upperByte (base : Nat) (t : Text) :
    Text.natOfDigits? base (t.map Text.upperByte) =
    Text.natOfDigits? base t := by
  simp only [Text.natOfDigits?, List.isEmpty_map, List.foldl_map,
    digitValue?_upperByte]

theorem exists_upperHex {width : Nat} (hwidth : 0 < width) (hn : n < 16 ^ width)
    (hvalid : n.isValidChar) :
    ∃ ds, upperHex width n = Text.ofChars ds ∧ ds.length = width ∧
      hexChar? ds = some (Char.ofNat n) ∧
      ∀ d ∈ ds, isAllowed d = true := by
  have hnumber : Text.natOfDigits? 16 (upperHex width n) = some n := by
    rw [upperHex, natOfDigits?_map_upperByte, Text.natOfDigits?_hexPadded]
  have hbyte : ∀ b ∈ upperHex width n, 0x30 ≤ b.toNat ∧ b.toNat ≤ 0x66 := by
    intro b hb
    have hdenotes := (Text.natOfDigits?_eq_some_iff (by decide)).1 hnumber
    obtain ⟨d, hd⟩ := hdenotes.exists_spells b hb
    exact hd.toNat_bounds
  have hascii : ∀ b ∈ upperHex width n, b.toNat < 0x80 := by
    intro b hb
    have hrange := hbyte b hb
    omega
  have hform := Text.isWellFormed_of_ascii hascii
  refine ⟨Text.chars (upperHex width n), (Text.ofChars_chars hform).symm, ?_,
    ?_, ?_⟩
  · rw [Text.chars_of_ascii hascii, List.length_map, upperHex, List.length_map,
      Text.length_hexPadded hwidth hn]
  · have htext : textOf (Text.chars (upperHex width n)) = upperHex width n :=
      Text.ofChars_chars hform
    rw [hexChar?, htext, hnumber]
    have hcode :
        (decide (n < 0xD800) ||
        (decide (0xE000 ≤ n) && decide (n ≤ 0x10FFFF))) = true := by
      simp only [Bool.or_eq_true, Bool.and_eq_true, decide_eq_true_eq]
      rcases hvalid with hlow | hhigh
      · exact .inl hlow
      · exact .inr (by omega)
    exact if_pos hcode
  · intro d hd
    rw [Text.chars_of_ascii hascii] at hd
    obtain ⟨b, hb, rfl⟩ := List.mem_map.1 hd
    have hrange := hbyte b hb
    have hval : (Char.ofNat b.toNat).toNat = b.toNat :=
      Scalar.val_ofNat (.inl (by omega))
    simp [isAllowed, hval]
    omega

theorem exists_letter (hn : c.toNat = n) (e : Char)
    (he : isAllowed e = true ∧ isBreak e = false ∧ escapeDigits e = 0 ∧
      escaped? e = some (Char.ofNat n)) :
    ∃ shown, Text.ofChars ['\\', e] = Text.ofChars shown ∧ Shows c shown := by
  obtain ⟨hallowed, hbreak, hdigits, hc⟩ := he
  refine ⟨['\\', e], rfl, .letter e hallowed hbreak hdigits ?_⟩
  rw [hc, ← hn, Char.ofNat_toNat]

theorem exists_digits
    {width : Nat} (e : Char)
    (he : isAllowed e = true ∧ isBreak e = false ∧ escapeDigits e = width)
    (hwidth : 0 < width) (hc : c.toNat < 16 ^ width) :
    ∃ shown, Text.ofChars ['\\', e] ++ upperHex width c.toNat =
      Text.ofChars shown ∧ Shows c shown := by
  obtain ⟨ds, htext, hlength, hread, hds⟩ := exists_upperHex hwidth hc c.valid
  obtain ⟨hallowed, hbreak, hdigits⟩ := he
  refine ⟨'\\' :: e :: ds, ?_,
    .digits e ds (List.forall_mem_cons.2 ⟨hallowed, hds⟩) hbreak ?_
    (hdigits.trans hlength.symm) ?_⟩
  · rw [htext, ← Text.ofChars_append]
    rfl
  · rintro rfl
    rw [← hlength] at hwidth
    cases hwidth
  · rw [hread, Char.ofNat_toNat]

/-- Every character can stand between double quotes. -/
theorem exists_escape (c : Char) :
    ∃ shown, escape (.char c) = Text.ofChars shown ∧ Shows c shown := by
  have hvalid : c.toNat < 0x110000 := by
    have hc : c.toNat.isValidChar := c.valid
    rcases hc with hlow | hhigh <;> omega
  unfold escape
  dsimp only [Scalar.code]
  split
  next hplain =>
    simp only [Bool.and_eq_true, Bool.not_eq_true', decide_eq_true_eq] at hplain
    refine ⟨[c], (List.append_nil _).symm, .itself hplain.1.1.1 ?_ ?_ ?_⟩
    · rw [isBreak_eq_isBreakCode]
      exact hplain.1.1.2
    · rintro rfl
      exact hplain.1.2 rfl
    · rintro rfl
      exact hplain.2 rfl
  · split
    next h => exact exists_letter h '0' (by decide)
    next h => exact exists_letter h 'a' (by decide)
    next h => exact exists_letter h 'b' (by decide)
    next h => exact exists_letter h 't' (by decide)
    next h => exact exists_letter h 'n' (by decide)
    next h => exact exists_letter h 'v' (by decide)
    next h => exact exists_letter h 'f' (by decide)
    next h => exact exists_letter h 'r' (by decide)
    next h => exact exists_letter h 'e' (by decide)
    next h => exact exists_letter h '\x22' (by decide)
    next h => exact exists_letter h '\\' (by decide)
    next h => exact exists_letter h 'N' (by decide)
    next h => exact exists_letter h 'L' (by decide)
    next h => exact exists_letter h 'P' (by decide)
    · by_cases hbyte : c.toNat ≤ 0xFF
      · rw [if_pos hbyte]
        exact exists_digits 'x' (by decide) (by decide) (by omega)
      · rw [if_neg hbyte]
        by_cases hshort : c.toNat ≤ 0xFFFF
        · rw [if_pos hshort]
          exact exists_digits 'u' (by decide) (by decide) (by omega)
        · rw [if_neg hshort]
          exact exists_digits 'U' (by decide) (by decide) (by omega)

def doubleShown (c : Char) : List Char :=
  Text.chars (escape (.char c))

theorem shows_doubleShown (c : Char) :
    escape (.char c) = Text.ofChars (doubleShown c) ∧
    Shows c (doubleShown c) := by
  obtain ⟨shown, htext, hshows⟩ := exists_escape c
  rw [doubleShown, htext, Text.chars_ofChars]
  exact ⟨rfl, hshows⟩

theorem doubleRest_shows
    {shown : List Char} (hshown : Shows c shown) (hblank : c ≠ ' ')
    (hcolumn : 0 < column) (fuel : Nat) :
    doubleRest (fuel + 1) ⟨shown ++ r, column, line, fresh, anchors⟩ =
      (doubleRest fuel ⟨r, column + shown.length, line, false, anchors⟩).map
      fun x => (c :: x.1, x.2) := by
  rw [doubleRest, atDocumentMark_of_pos hcolumn, if_neg Bool.noConfusion]
  cases hshown with
  | itself hprintable hbreak hquote hslash =>
    dsimp only [List.singleton_append]
    split
    next h => cases h
    next h => exact absurd (List.cons.inj h).1 hquote
    next h => exact absurd (List.cons.inj h).1 hslash
    next h =>
      obtain ⟨rfl, rfl⟩ := List.cons.inj h
      rw [if_neg (by rw [isBlank_eq_false hprintable hblank, hbreak]; decide)]
      rfl
  | letter e _ hbreak hdigits hc =>
    have hnone :
      takeBreak? (advance ⟨['\\', e] ++ r, column, line, fresh, anchors⟩ 1) =
      none :=
      takeBreak?_of_not_isBreak hbreak
    rw [hnone]
    change (if escapeDigits e = 0 then (escaped? e).bind fun c =>
      (doubleRest fuel ⟨r, column + 2, line, false, anchors⟩).bind fun x =>
      some (c :: x.1, x.2) else _) = _
    rw [if_pos hdigits, hc, Option.bind_some]
    exact Option.map_eq_bind.symm
  | digits e ds _ hbreak hne hdigits hc =>
    have hnone :
      takeBreak?
      (advance ⟨'\\' :: e :: ds ++ r, column, line, fresh, anchors⟩ 1) = none :=
      takeBreak?_of_not_isBreak hbreak
    rw [hnone]
    have hcount : escapeDigits e ≠ 0 := by
      rw [hdigits]
      exact Nat.pos_iff_ne_zero.1 (List.length_pos_iff.2 hne)
    have hlength : ¬(ds ++ r).length < escapeDigits e := by
      rw [hdigits, List.length_append]
      omega
    have hadvance : advance ⟨'\\' :: e :: ds ++ r, column, line, fresh, anchors⟩
        (2 + escapeDigits e) =
        ⟨r, column + ('\\' :: e :: ds).length, line, false, anchors⟩ := by
      rw [hdigits, Nat.add_comm]
      exact advance_append ('\\' :: e :: ds)
    have htake : (ds ++ r).take (escapeDigits e) = ds := by
      rw [hdigits, List.take_left]
    change (if escapeDigits e = 0 then _
      else if (ds ++ r).length < escapeDigits e then none
      else (hexChar? ((ds ++ r).take (escapeDigits e))).bind fun c =>
        (doubleRest fuel
        (advance ⟨'\\' :: e :: ds ++ r, column, line, fresh, anchors⟩
          (2 + escapeDigits e))).bind fun x => some (c :: x.1, x.2)) = _
    rw [if_neg hcount, if_neg hlength, htake, hc, Option.bind_some, hadvance]
    exact Option.map_eq_bind.symm

theorem doubleRest_blanks (hrun : ∀ c ∈ ' ' :: run, c = ' ')
    (hr : startsWord r = true) (hcolumn : 0 < column) (fuel : Nat) :
    doubleRest (fuel + 1) ⟨' ' :: run ++ r, column, line, fresh, anchors⟩ =
      (doubleRest fuel
      ⟨r, column + (' ' :: run).length, line, fresh, anchors⟩).map
        fun x => (' ' :: run ++ x.1, x.2) := by
  rw [doubleRest, atDocumentMark_of_pos hcolumn, if_neg Bool.noConfusion]
  change (quotedWhite? ⟨' ' :: run ++ r, column, line, fresh, anchors⟩).bind _ =
    _
  rw [quotedWhite?_blanks hrun hr, Option.bind_some]
  change (doubleRest fuel _).bind _ = _
  cases doubleRest fuel
    ⟨r, column + (' ' :: run).length, line, fresh, anchors⟩ <;> rfl

theorem startsWord_shows
    {shown : List Char} (hshown : Shows c shown) (hblank : c ≠ ' ')
    (r : List Char) :
    startsWord (shown ++ r) = true := by
  cases hshown with
  | itself hprintable hbreak _ _ =>
    rw [List.singleton_append, startsWord, isBlank_eq_false hprintable hblank,
      hbreak]
    rfl
  | letter e => rfl
  | digits e ds => rfl

theorem startsWord_double
    (hhead : ∀ c ∈ cs.head?, c ≠ ' ') (r : List Char) :
    startsWord (cs.flatMap doubleShown ++ '\x22' :: r) = true := by
  cases cs with
  | nil => rfl
  | cons c cs =>
    rw [List.flatMap_cons, List.append_assoc]
    exact startsWord_shows (shows_doubleShown c).2 (hhead c rfl) _

theorem flatMap_doubleShown_blanks (hrun : ∀ c ∈ run, c = ' ') :
    run.flatMap doubleShown = run := by
  have hblank : doubleShown ' ' = [' '] := by decide
  rw [List.flatMap_def,
    List.map_congr_left fun c hc => by
    rw [hrun c hc, hblank, ← hrun c hc], ← List.flatMap_def]
  exact List.flatMap_singleton' run

/-- A text between double quotes is read up to the closing quote. -/
theorem doubleRest_double
    (hcolumn : 0 < column) {fuel : Nat} (hfuel : cs.length < fuel) :
    ∃ column' line', doubleRest fuel
        ⟨cs.flatMap doubleShown ++ '\x22' :: r, column, line, fresh, anchors⟩ =
      some (cs, ⟨r, column', line', false, anchors⟩) := by
  induction hlength : cs.length using Nat.strongRecOn
    generalizing cs fuel column fresh with
  | ind n ih =>
    obtain ⟨fuel, rfl⟩ : ∃ k, fuel = k + 1 := ⟨fuel - 1, by omega⟩
    cases cs with
    | nil =>
      refine ⟨column + 1, line, ?_⟩
      rw [List.flatMap_nil, List.nil_append, doubleRest,
        atDocumentMark_of_pos hcolumn]
      rfl
    | cons c cs =>
      rw [List.length_cons] at hfuel hlength
      by_cases hblank : c = ' '
      · subst hblank
        obtain ⟨run, rest, rfl, hrun, hrest⟩ :=
          exists_eq_run_append (· == ' ') cs
        have hblanks : ∀ b ∈ ' ' :: run, b = ' ' :=
          List.forall_mem_cons.2 ⟨rfl, fun b hb => eq_of_beq (hrun b hb)⟩
        have hstart :=
          startsWord_double (fun d hd => by simpa using hrest d hd) r
        rw [List.length_append] at hfuel hlength
        obtain ⟨column', line', hbehind⟩ : ∃ column' line', doubleRest fuel
            ⟨rest.flatMap doubleShown ++ '\x22' :: r,
            column + (' ' :: run).length, line, fresh, anchors⟩ =
              some (rest, ⟨r, column', line', false, anchors⟩) :=
          ih rest.length (by omega) (by omega) (by omega) rfl
        refine ⟨column', line', ?_⟩
        rw [← List.cons_append, List.flatMap_append,
          flatMap_doubleShown_blanks hblanks, List.append_assoc,
          doubleRest_blanks hblanks hstart hcolumn, hbehind]
        rfl
      · obtain ⟨column', line', hbehind⟩ : ∃ column' line', doubleRest fuel
            ⟨cs.flatMap doubleShown ++ '\x22' :: r,
            column + (doubleShown c).length, line, false, anchors⟩ =
              some (cs, ⟨r, column', line', false, anchors⟩) :=
          ih cs.length (by omega) (by omega) (by omega) rfl
        refine ⟨column', line', ?_⟩
        rw [List.flatMap_cons, List.append_assoc,
          doubleRest_shows (shows_doubleShown c).2 hblank hcolumn, hbehind]
        rfl

theorem length_le_length_flatMap (cs : List Char) :
    cs.length ≤ (cs.flatMap doubleShown).length := by
  have hshown : ∀ c, doubleShown c ≠ [] := by
    intro c hnil
    have hshows := (shows_doubleShown c).2
    rw [hnil] at hshows
    cases hshows
  induction cs with
  | nil => exact Nat.le_refl 0
  | cons c cs ih =>
    have hpos := List.length_pos_iff.2 (hshown c)
    rw [List.flatMap_cons, List.length_append, List.length_cons]
    omega

theorem quoted?_double :
    ∃ column' line', quoted?
        ⟨'\x22' :: (cs.flatMap doubleShown ++ '\x22' :: r), column, line,
        fresh, anchors⟩ =
      some (.scalar none false (textOf cs),
        ⟨r, column', line', false, anchors⟩) := by
  have hfuel : cs.length <
      ('\x22' :: (cs.flatMap doubleShown ++ '\x22' :: r)).length + 1 := by
    have hlength := length_le_length_flatMap cs
    simp only [List.length_cons, List.length_append]
    omega
  obtain ⟨column', line', hread⟩ : ∃ column' line', doubleRest _
      ⟨cs.flatMap doubleShown ++ '\x22' :: r, column + 1, line,
      false, anchors⟩ =
        some (cs, ⟨r, column', line', false, anchors⟩) :=
    doubleRest_double (Nat.succ_pos column) hfuel
  exact ⟨column', line', congrArg (Option.map _) hread⟩

end Yaml

end ProtocolCorpus
