import ProtocolCorpus.Proofs.Yaml.Gaps

/-!
# Reading plain scalars

A text that was written without quotes is read word by word up to the end of its
line, and a key up to its colon.
-/

namespace ProtocolCorpus

namespace Yaml

open Cursor

variable {c : Char} {cs r : List Char} {column line : Nat} {fresh : Bool}
  {anchors : List (Text × Node)}

/-! ## Characters -/

variable {run : List Char} {before : Option Nat}

theorem isBlank_eq_false
    (hc : isPrintable c.toNat = true) (hblank : c ≠ ' ') :
    isBlank c = false := by
  have htab : c ≠ '\t' := by
    rintro rfl
    cases hc
  simp [isBlank, hblank, htab]

/-- A row of characters is a run of those with a property, and then one without
it. -/
theorem exists_eq_run_append (p : Char → Bool) (cs : List Char) :
    ∃ run rest, cs = run ++ rest ∧ (∀ c ∈ run, p c = true) ∧
    ∀ c ∈ rest.head?, p c = false := by
  induction cs with
  | nil => exact ⟨[], [], rfl, by simp, by simp⟩
  | cons c cs ih =>
    cases hc : p c with
    | false => exact ⟨[], c :: cs, rfl, by simp, by simpa using hc⟩
    | true =>
      obtain ⟨run, rest, rfl, hrun, hrest⟩ := ih
      exact ⟨c :: run, rest, rfl, List.forall_mem_cons.2 ⟨hc, hrun⟩, hrest⟩

theorem takeWhile_isBlank (hrun : ∀ c ∈ run, c = ' ')
    (hr : ∀ c ∈ r.head?, isBlank c = false) :
    (run ++ r).takeWhile isBlank = run := by
  rw [List.takeWhile_append_of_pos fun c hc => by rw [hrun c hc]; rfl]
  cases r with
  | nil => exact List.append_nil run
  | cons c r =>
    rw [List.takeWhile_cons, hr c rfl, if_neg Bool.noConfusion, List.append_nil]

theorem getLast?_append_blanks {w : List Char} (hne : run ≠ [])
    (hrun : ∀ c ∈ run, c = ' ') :
    (w ++ run).getLast? = some ' ' := by
  rw [List.getLast?_append, List.getLast?_eq_some_getLast hne,
    hrun _ (List.getLast_mem hne)]
  rfl

/-! ## Plain scalars -/

/-- What a mark would have to be followed by to mean structure does not follow.
-/
theorem endsWord_eq_false
    (hcs : ∀ c ∈ cs, isPrintable c.toNat = true ∧ isBreakCode c.toNat = false)
    (h : (((cs.map Char.toNat).head?).map isBlankCode).getD true = false)
    (r : List Char) :
    endsWord (cs ++ r) = false := by
  cases cs with
  | nil => cases h
  | cons c cs =>
    have hbreak : isBreak c = false := by
      rw [isBreak_eq_isBreakCode]
      exact (hcs c List.mem_cons_self).2
    have hblank : isBlank c = false := by
      rw [isBlank_eq_isBlankCode]
      exact h
    rw [List.cons_append, endsWord, hblank, hbreak]
    rfl

theorem endsWord_of_colon (hcs : ∀ c ∈ cs, isPrintable c.toNat = true ∧
    isBreakCode c.toNat = false)
    (h : isIndicator before ':'.toNat (cs.map Char.toNat).head? = false)
    (r : List Char) :
    endsWord (cs ++ r) = false := by
  apply endsWord_eq_false hcs
  cases before with
  | none => simpa [isIndicator, isLeadingIndicator] using h
  | some m => simpa [isIndicator] using h

/-- A word of a plain text goes on up to the next blank. -/
theorem plainWord_plain (hcs : ∀ c ∈ cs, isPrintable c.toNat = true ∧
    isBreakCode c.toNat = false)
    (h : anyAt isIndicator before (cs.map Char.toNat) = false) (r : List Char) :
    plainWord false (cs ++ '\n' :: r) = cs.takeWhile (· != ' ') := by
  induction cs generalizing before with
  | nil => rfl
  | cons c cs ih =>
    obtain ⟨⟨hprintable, hbreak⟩, hrest⟩ := List.forall_mem_cons.1 hcs
    rw [List.map_cons, anyAt, Bool.or_eq_false_iff] at h
    rw [← isBreak_eq_isBreakCode] at hbreak
    by_cases hblank : c = ' '
    · subst hblank
      rfl
    · have hcolon : (decide (c = ':') && endsWord (cs ++ '\n' :: r)) =
          false := by
        by_cases hcolon : c = ':'
        · subst hcolon
          exact endsWord_of_colon hrest h.1 _
        · rw [decide_eq_false hcolon, Bool.false_and]
      rw [List.cons_append, plainWord, isBlank_eq_false hprintable hblank,
        hbreak, hcolon, ih hrest h.2, List.takeWhile_cons,
        if_pos (bne_iff_ne.2 hblank)]
      rfl

/-- The first word of a text and what follows: nothing, or blanks and another
word. -/
theorem exists_eq_word_append
    (hne : cs ≠ []) (hhead : cs.head? ≠ some ' ')
    (hlast : cs.getLast? ≠ some ' ') :
    ∃ w rest, cs = w ++ rest ∧ cs.takeWhile (· != ' ') = w ∧ w ≠ [] ∧
      (rest = [] ∨ ∃ run c ds, rest = run ++ c :: ds ∧ run ≠ [] ∧
      (∀ b ∈ run, b = ' ') ∧ c ≠ ' ') := by
  obtain ⟨w, rest, rfl, hw, hrest⟩ := exists_eq_run_append (· != ' ') cs
  have hword : (w ++ rest).takeWhile (· != ' ') = w := by
    rw [List.takeWhile_append_of_pos hw]
    cases rest with
    | nil => exact List.append_nil w
    | cons c rest =>
      rw [List.takeWhile_cons, hrest c rfl, if_neg Bool.noConfusion,
        List.append_nil]
  refine ⟨w, rest, rfl, hword, ?_, ?_⟩
  · rintro rfl
    cases rest with
    | nil => exact hne rfl
    | cons c rest =>
      have hblank : c = ' ' := by simpa using hrest c rfl
      exact hhead (by rw [hblank]; rfl)
  · obtain ⟨run, behind, rfl, hrun, hbehind⟩ :=
      exists_eq_run_append (· == ' ') rest
    have hrun' : ∀ b ∈ run, b = ' ' := fun b hb => eq_of_beq (hrun b hb)
    cases behind with
    | nil =>
      left
      rw [List.append_nil] at hlast ⊢
      exact Decidable.byContradiction fun hrunne =>
        hlast (getLast?_append_blanks hrunne hrun')
    | cons c ds =>
      right
      refine ⟨run, c, ds, rfl, ?_, hrun', by simpa using hbehind c rfl⟩
      rintro rfl
      have hblank : c = ' ' := by simpa using hrest c rfl
      exact absurd (hbehind c rfl) (by rw [hblank]; decide)

theorem plainText_suffix {w ds : List Char} {c : Char}
    (hrun : ∀ b ∈ run, b = ' ') (hne : run ≠ [])
    (hc : c ≠ ' ') (h : PlainText before (w ++ (run ++ c :: ds))) :
    PlainText (some 0x20) (c :: ds) := by
  rw [← List.append_assoc] at h
  refine ⟨?_, ?_, by simpa using hc, ?_⟩
  · intro d hd
    exact h.ordinary d (List.mem_append_right _ hd)
  · have hmarks := h.unmarked
    rw [List.map_append] at hmarks
    have hsuffix := anyAt_eq_false_of_append hmarks
    rw [List.getLast?_map, getLast?_append_blanks hne hrun] at hsuffix
    exact hsuffix
  · have hlast := h.last
    rw [List.getLast?_append, List.getLast?_cons, Option.some_or] at hlast
    rwa [List.getLast?_cons]

section Words

variable {w u : List Char} {lines : Bool} {indent : Nat}

/-- What is left of a plain scalar behind a word: blanks and another word. -/
theorem plainFrom_next
    (hmark : atDocumentMark ⟨w ++ (u ++ c :: r), column, line, fresh, anchors⟩ =
      false)
    (hcomment : (w ++ (u ++ c :: r)).head? ≠ some '#')
    (hword : plainWord false (w ++ (u ++ c :: r)) = w) (hne : w ≠ [])
    (hblanks : ∀ b ∈ u, b = ' ') (hune : u ≠ [])
    (hc : startsWord (c :: r) = true) (fuel : Nat) (separator : List Char) :
    plainFrom false lines indent (fuel + 1) separator
      ⟨w ++ (u ++ c :: r), column, line, fresh, anchors⟩ =
      (plainFrom false lines indent fuel u
      ⟨c :: r, column + w.length + u.length, line, false, anchors⟩).map
        fun x => (separator ++ w ++ x.1, x.2) := by
  obtain ⟨hblank, htab, hbreak⟩ := startsWord_cons_iff.1 hc
  have hrun : (u ++ c :: r).takeWhile isBlank = u := by
    apply takeWhile_isBlank hblanks
    intro d hd
    cases hd
    simp [isBlank, hblank, htab]
  rw [plainFrom]
  dsimp only
  rw [hword, hmark, peek?]
  dsimp only
  rw [decide_eq_false hcomment, List.isEmpty_eq_false_iff.2 hne, advance_append]
  dsimp only
  rw [hrun, skip_append, takeBreak?_of_not_isBreak hbreak,
    List.isEmpty_eq_false_iff.2 hune]
  rfl

/-- The last word of a plain scalar, where a colon or a line end follows. -/
theorem plainFrom_last
    (hmark : atDocumentMark ⟨w ++ c :: r, column, line, fresh, anchors⟩ = false)
    (hcomment : (w ++ c :: r).head? ≠ some '#')
    (hword : plainWord false (w ++ c :: r) = w) (hne : w ≠ [])
    (hblank : isBlank c = false)
    (hc : isBreak c = false ∨ lines = false ∧ isLineEnd c = true) (fuel : Nat)
    (separator : List Char) :
    plainFrom false lines indent (fuel + 1) separator
      ⟨w ++ c :: r, column, line, fresh, anchors⟩ =
      some (separator ++ w,
      ⟨c :: r, column + w.length, line, false, anchors⟩) := by
  have hrun : (c :: r).takeWhile isBlank = [] := by
    rw [List.takeWhile_cons, hblank, if_neg Bool.noConfusion]
  rw [plainFrom]
  dsimp only
  rw [hword, hmark, peek?]
  dsimp only
  rw [decide_eq_false hcomment, List.isEmpty_eq_false_iff.2 hne, advance_append]
  dsimp only
  rw [hrun]
  rcases hc with hc | ⟨rfl, hc⟩
  · have hbreak :
        (skip ⟨c :: r, column + w.length, line, false, anchors⟩
        ([] : List Char).length).takeBreak? =
        none := takeBreak?_of_not_isBreak hc
    rw [hbreak]
    rfl
  · have hbreak :
        (skip ⟨c :: r, column + w.length, line, false, anchors⟩
        ([] : List Char).length).takeBreak? =
        some (c, ⟨r, 0, line + 1, true, anchors⟩) := takeBreak?_lineEnd hc
    rw [hbreak]
    rfl

/-- The last word of a plain scalar that could go on in the next line, if that
were indented enough. -/
theorem plainFrom_lastLine
    {j : Nat}
    (hmark : atDocumentMark
      ⟨w ++ '\n' :: (List.replicate j ' ' ++ r), column, line, fresh, anchors⟩ =
      false)
    (hcomment : (w ++ '\n' :: (List.replicate j ' ' ++ r)).head? ≠ some '#')
    (hword : plainWord false (w ++ '\n' :: (List.replicate j ' ' ++ r)) = w)
    (hne : w ≠ []) (hr : startsWord r = true) (hj : j < indent) (fuel : Nat)
    (separator : List Char) :
    plainFrom false true indent (fuel + 1) separator
        ⟨w ++ '\n' :: (List.replicate j ' ' ++ r), column, line,
        fresh, anchors⟩ =
      some (separator ++ w, ⟨r, j, line + 1, true, anchors⟩) := by
  have hgap :
      lineGap? indent true (('\n' :: (List.replicate j ' ' ++ r)).length + 1)
      ⟨'\n' :: (List.replicate j ' ' ++ r), column + w.length, line,
      false, anchors⟩ =
        some (['\n'], ⟨r, j, line + 1, true, anchors⟩) := by
    have hlines : ∀ c ∈ ['\n'], isLineEnd c = true :=
      List.forall_mem_singleton.2 rfl
    apply lineGap?_lineEnds hlines hr j
    simp only [List.length_cons, List.length_append, List.length_replicate,
      List.length_nil]
    omega
  rw [plainFrom]
  dsimp only
  rw [hword, hmark, peek?]
  dsimp only
  rw [decide_eq_false hcomment, List.isEmpty_eq_false_iff.2 hne, advance_append]
  change ((lineGap? indent true
    (('\n' :: (List.replicate j ' ' ++ r)).length + 1)
    ⟨'\n' :: (List.replicate j ' ' ++ r), column + w.length, line, false,
    anchors⟩).bind fun x =>
      if (!false && decide (x.2.column < indent)) = true then
      some (separator ++ w, x.2)
      else (plainFrom false true indent fuel (foldBreaks x.1) x.2).bind fun y =>
        some (separator ++ w ++ y.1, y.2)) = _
  rw [hgap]
  exact if_pos (by simpa using hj)

end Words

/-- Where the cursor stands behind a plain scalar that ends its line: there, or
at the next token. -/
def behindPlain (lines : Bool) (j : Nat) (r : List Char) (column line : Nat)
    (anchors : List (Text × Node)) :
    Cursor :=
  if lines then ⟨r, j, line + 1, true, anchors⟩
  else ⟨'\n' :: (List.replicate j ' ' ++ r), column, line, false, anchors⟩

/-- A plain text is read to the end of its line, if the next line is indented
less. -/
theorem plainFrom_plain (hbefore : before = none ∨ before = some 0x20)
    (hne : cs ≠ [])
    (hcs : PlainText before cs) {lines : Bool} {indent j : Nat}
    (hr : startsWord r = true) (hj : lines = true → j < indent) {fuel : Nat}
    (hfuel : cs.length < fuel) (separator : List Char)
    (hmark : atDocumentMark
      ⟨cs ++ '\n' :: (List.replicate j ' ' ++ r), column, line, fresh,
      anchors⟩ = false) :
    plainFrom false lines indent fuel separator
        ⟨cs ++ '\n' :: (List.replicate j ' ' ++ r), column, line,
        fresh, anchors⟩ =
      some (separator ++ cs, behindPlain lines j r (column + cs.length) line
        anchors) := by
  induction hlength : cs.length using Nat.strongRecOn
    generalizing cs before fuel separator column fresh with
  | ind n ih =>
    obtain ⟨fuel, rfl⟩ : ∃ k, fuel = k + 1 := ⟨fuel - 1, by omega⟩
    obtain ⟨w, rest, hsplit, hword, hwne, hrest⟩ :=
      exists_eq_word_append hne hcs.head hcs.last
    have hplain :=
      plainWord_plain hcs.ordinary hcs.unmarked (List.replicate j ' ' ++ r)
    have hcomment : (cs ++ '\n' :: (List.replicate j ' ' ++ r)).head? ≠
        some '#' := by
      obtain ⟨a, as, rfl⟩ := List.exists_cons_of_ne_nil hne
      intro hhead
      obtain rfl : a = '#' := Option.some.inj hhead
      have hmarks := hcs.unmarked
      rcases hbefore with rfl | rfl <;> exact Bool.noConfusion hmarks
    rw [hword] at hplain
    rcases hrest with rfl | ⟨run, d, ds, rfl, hrunne, hrun, hd⟩
    · rw [List.append_nil] at hsplit
      subst hsplit
      cases lines with
      | false =>
        rw [plainFrom_last hmark hcomment hplain hwne rfl (.inr ⟨rfl, rfl⟩),
          hlength]; rfl
      | true =>
        exact plainFrom_lastLine hmark hcomment hplain hwne hr
          (hj rfl) fuel separator
    · subst hsplit
      have hnext := plainText_suffix hrun hrunne hd hcs
      obtain ⟨hprintable, hbreak⟩ := hnext.ordinary d List.mem_cons_self
      have hstart :
          startsWord (d :: (ds ++ '\n' :: (List.replicate j ' ' ++ r))) =
          true := by
        rw [startsWord, isBlank_eq_false hprintable hd, isBreak_eq_isBreakCode,
          hbreak]
        rfl
      have hwpos := List.length_pos_iff.2 hwne
      have hlater :
          atDocumentMark ⟨d :: ds ++ '\n' :: (List.replicate j ' ' ++ r),
          column + w.length + run.length, line, false, anchors⟩ =
          false := atDocumentMark_of_pos (by omega)
      simp only [List.append_assoc, List.cons_append, List.length_append,
        List.length_cons] at *
      have hsmall : ds.length + 1 < fuel := by omega
      have hread :=
        ih (ds.length + 1) (by omega) (.inr rfl) (List.cons_ne_nil d ds) hnext
          hsmall run hlater rfl
      rw [List.cons_append] at hread
      rw [plainFrom_next hmark hcomment hplain hwne hrun hrunne hstart, hread]
      have hcolumn : column + w.length + run.length + (ds.length + 1) =
        column + n := by omega
      rw [hcolumn, Option.map_some, List.append_assoc]

theorem plain?_plain
    (hne : cs ≠ []) (hcs : PlainText none cs) {lines : Bool} {indent j : Nat}
    (hr : startsWord r = true) (hj : lines = true → j < indent)
    (hmark : atDocumentMark
      ⟨cs ++ '\n' :: (List.replicate j ' ' ++ r), column, line, fresh,
      anchors⟩ = false) :
    plain? false lines indent
      ⟨cs ++ '\n' :: (List.replicate j ' ' ++ r), column, line,
      fresh, anchors⟩ =
      some (cs, behindPlain lines j r (column + cs.length) line anchors) := by
  have hfuel : cs.length < (cs ++ '\n' :: (List.replicate j ' ' ++ r)).length +
      1 := by
    rw [List.length_append]
    omega
  rw [plain?, plainFrom_plain (.inl rfl) hne hcs hr hj hfuel [] hmark]
  obtain ⟨a, as, rfl⟩ := List.exists_cons_of_ne_nil hne
  rfl

theorem startsPlain_plain
    (hne : cs ≠ []) (hcs : PlainText none cs) (r : List Char) :
    startsPlain false (cs ++ r) = true := by
  obtain ⟨c, cs, rfl⟩ := List.exists_cons_of_ne_nil hne
  obtain ⟨⟨hprintable, hbreak⟩, hrest⟩ := List.forall_mem_cons.1 hcs.ordinary
  have hblank : c ≠ ' ' := by simpa using hcs.head
  have hmarks := hcs.unmarked
  rw [List.map_cons, anyAt, Bool.or_eq_false_iff, isIndicator] at hmarks
  simp only [Bool.or_eq_false_iff] at hmarks
  obtain ⟨⟨hlead, hfollows⟩, -⟩ := hmarks
  have hends : c = '-' ∨ c = '?' ∨ c = ':' → endsWord (cs ++ r) = false := by
    intro hc
    apply endsWord_eq_false hrest
    rcases hc with rfl | rfl | rfl <;> exact hfollows
  have hlist :
      ([',', '[', ']', '\x7b', '\x7d', '#', '&', '*', '!', '|', '>', '\x27',
      '\x22', '%', '@', '\x60'].contains c) = false := by
    rw [← Bool.not_eq_true, List.contains_iff_mem]
    intro hmem
    have hall :
        ∀ d ∈ [',', '[', ']', '\x7b', '\x7d', '#', '&', '*', '!', '|', '>',
        '\x27', '\x22', '%', '@', '\x60'], isLeadingIndicator d.toNat =
        true := List.all_eq_true.1 (by decide)
    rw [hall c hmem] at hlead
    cases hlead
  rw [List.cons_append, startsPlain, isBlank_eq_false hprintable hblank,
    isBreak_eq_isBreakCode, hbreak,
    if_neg (by decide)]
  by_cases hdash : c = '-'
  · rw [if_pos hdash]
    have hdashes := hends (.inl hdash)
    revert hdashes
    cases cs ++ r with
    | nil => decide
    | cons d ds =>
      intro hd
      rw [endsWord, Bool.or_eq_false_iff] at hd
      simp [hd.1]
  · rw [if_neg hdash]
    by_cases hmark : c = '?' ∨ c = ':'
    · rw [if_pos (by simpa using hmark), hends (.inr hmark)]
      rfl
    · rw [if_neg (by simpa using hmark), hlist]
      rfl

/-! ## Keys -/

theorem plainWord_append
    {w : List Char}
    (hw : ∀ c ∈ w, isBlank c = false ∧ isBreak c = false ∧ c ≠ ':')
    (r : List Char) :
    plainWord false (w ++ r) = w ++ plainWord false r := by
  induction w with
  | nil => rfl
  | cons c w ih =>
    obtain ⟨⟨hblank, hbreak, hcolon⟩, hrest⟩ := List.forall_mem_cons.1 hw
    rw [List.cons_append, plainWord, hblank, hbreak, decide_eq_false hcolon,
      ih hrest]
    rfl

/-- A key is read up to its colon. -/
theorem plain?_key
    {w : List Char} (hne : w ≠ [])
    (hw : ∀ c ∈ w, isBlank c = false ∧ isBreak c = false ∧ c ≠ ':')
    (hcomment : w.head? ≠ some '#') (hr : endsWord r = true)
    (hmark : atDocumentMark ⟨w ++ ':' :: r, column, line, fresh, anchors⟩ =
      false) :
    plain? false false 0 ⟨w ++ ':' :: r, column, line, fresh, anchors⟩ =
      some (w, ⟨':' :: r, column + w.length, line, false, anchors⟩) := by
  have hword : plainWord false (w ++ ':' :: r) = w := by
    rw [plainWord_append hw, plainWord, hr]
    exact List.append_nil w
  obtain ⟨a, as, rfl⟩ := List.exists_cons_of_ne_nil hne
  rw [plain?, plainFrom_last hmark hcomment hword hne rfl (.inl rfl)]
  rfl

end Yaml

end ProtocolCorpus
