import ProtocolCorpus.Proofs.Yaml.Styles
import ProtocolCorpus.Yaml.Token

/-!
# Gaps between tokens

What a cursor does at blanks and line ends. Cursors are written with what is
left to read up front, so each statement says what stands before a gap and where
the cursor is behind it.
-/

namespace ProtocolCorpus

namespace Yaml

namespace Cursor

variable {fuel indent : Nat} {strict : Bool} {bs : List Char}

theorem isBreak_eq_isBreakCode (c : Char) :
    isBreak c = isBreakCode c.toNat := by
  have hline : (c = '\n') = (c.toNat = 0x0A) := propext Char.toNat_inj.symm
  have hreturn : (c = '\r') = (c.toNat = 0x0D) := propext Char.toNat_inj.symm
  simp only [isBreak, isBreakCode, hline, hreturn]

theorem isBlank_eq_isBlankCode (c : Char) :
    isBlank c = isBlankCode c.toNat := by
  have hblank : (c = ' ') = (c.toNat = 0x20) := propext Char.toNat_inj.symm
  have htab : (c = '\t') = (c.toNat = 0x09) := propext Char.toNat_inj.symm
  simp only [isBlank, isBlankCode, hblank, htab]

def isLineEnd (c : Char) : Bool :=
  c = '\n' || c = '\u2028' || c = '\u2029'

theorem isLineEnd_iff {c : Char} :
    isLineEnd c = true ↔ c = '\n' ∨ c = '\u2028' ∨ c = '\u2029' := by
  simp only [isLineEnd, Bool.or_eq_true, decide_eq_true_eq, or_assoc]

theorem isBreak_of_isLineEnd
    {c : Char} (hc : isLineEnd c = true) :
    isBreak c = true := by
  rcases isLineEnd_iff.1 hc with rfl | rfl | rfl <;> decide

theorem isLineEnd_of_isBreak
    {c : Char} (hc : isBreak c = true)
    (hprintable : isPrintable c.toNat = true ∨ c = '\t') :
    isLineEnd c = true := by
  rw [isBreak_eq_isBreakCode] at hc
  rw [isLineEnd_iff]
  rcases hprintable with hprintable | rfl
  · simp only [isBreakCode, isPrintable, Bool.or_eq_true, Bool.and_eq_true,
      decide_eq_true_eq] at hc hprintable
    have hcode : c.toNat = 0x0A ∨ c.toNat = 0x2028 ∨ c.toNat = 0x2029 := by
      omega
    exact hcode.imp Char.toNat_inj.1 (.imp Char.toNat_inj.1 Char.toNat_inj.1)
  · cases hc

/-- No blank and no line end stands in front. -/
def startsWord : List Char → Bool
  | [] => true
  | c :: _ => !isBlank c && !isBreak c

/-- Neither a blank, a line end nor a comment stands in front. -/
def startsToken (r : List Char) : Bool :=
  startsWord r && r.head? != some '#'

variable {c : Char} {r : List Char} {column line : Nat} {fresh : Bool}
  {anchors : List (Text × Node)}

theorem startsWord_cons_iff :
    startsWord (c :: r) = true ↔ c ≠ ' ' ∧ c ≠ '\t' ∧ isBreak c = false := by
  simp [startsWord, isBlank, and_assoc]

theorem startsWord_of_startsToken
    (hr : startsToken r = true) :
    startsWord r = true :=
  (Bool.and_eq_true_iff.1 hr).1

theorem atDocumentMark_of_pos
    (hcolumn : 0 < column) :
    atDocumentMark ⟨r, column, line, fresh, anchors⟩ = false := by
  rw [atDocumentMark, decide_eq_false (Nat.pos_iff_ne_zero.1 hcolumn),
    Bool.false_and]

theorem advance_append (w : List Char) :
    advance ⟨w ++ r, column, line, fresh, anchors⟩ w.length =
    ⟨r, column + w.length, line, false, anchors⟩ := by
  rw [advance, List.drop_left]

theorem skip_append (w : List Char) :
    skip ⟨w ++ r, column, line, fresh, anchors⟩ w.length =
    ⟨r, column + w.length, line, fresh, anchors⟩ := by
  rw [skip, List.drop_left]

theorem takeBreak?_lineEnd
    (hc : isLineEnd c = true) :
    takeBreak? ⟨c :: r, column, line, fresh, anchors⟩ =
      some (c, ⟨r, 0, line + 1, true, anchors⟩) := by
  rcases isLineEnd_iff.1 hc with rfl | rfl | rfl <;> rfl

theorem takeBreak?_of_not_isBreak
    (hc : isBreak c = false) :
    takeBreak? ⟨c :: r, column, line, fresh, anchors⟩ = none := by
  simp only [isBreak, Bool.or_eq_false_iff, decide_eq_false_iff_not] at hc
  obtain ⟨⟨⟨⟨hline, hreturn⟩, hnext⟩, hpart⟩, hpart'⟩ := hc
  unfold takeBreak?
  split
  next h => exact absurd (List.cons.inj h).1 hreturn
  next h =>
    obtain ⟨rfl, rfl⟩ := List.cons.inj h
    simp [isBreak, hline, hreturn, hnext, hpart, hpart']
  · rfl

theorem takeBreak?_of_startsWord
    (hr : startsWord r = true) :
    takeBreak? ⟨r, column, line, fresh, anchors⟩ = none := by
  cases r with
  | nil => rfl
  | cons c r => exact takeBreak?_of_not_isBreak (startsWord_cons_iff.1 hr).2.2

/-! ## Tokens -/

theorem gap_blanks (hr : startsToken r = true) (j : Nat) (hfuel : j < fuel)
    (tabs : Bool) :
    gap false fuel tabs false
      ⟨List.replicate j ' ' ++ r, column, line, fresh, anchors⟩ =
      ⟨r, column + j, line, fresh, anchors⟩ := by
  obtain ⟨fuel, rfl⟩ : ∃ k, fuel = k + 1 := ⟨fuel - 1, by omega⟩
  induction j generalizing fuel column with
  | zero =>
    rw [List.replicate_zero, List.nil_append, gap,
      takeBreak?_of_startsWord (startsWord_of_startsToken hr)]
    cases r with
    | nil => rfl
    | cons c r =>
      obtain ⟨hblank, htab, -⟩ :=
        startsWord_cons_iff.1 (startsWord_of_startsToken hr)
      have hcomment : c ≠ '#' := by simpa using (Bool.and_eq_true_iff.1 hr).2
      simp [hblank, htab, hcomment]
  | succ j ih =>
    obtain ⟨fuel, rfl⟩ : ∃ k, fuel = k + 1 := ⟨fuel - 1, by omega⟩
    rw [List.replicate_succ, List.cons_append, gap,
      takeBreak?_of_not_isBreak (by decide)]
    change gap false (fuel + 1) tabs false
      ⟨List.replicate j ' ' ++ r, column + 1, line, fresh, anchors⟩ = _
    rw [ih fuel (by omega), Nat.add_right_comm]
    rfl

theorem toToken_blanks
    (hr : startsToken r = true) (j : Nat) (tabs : Bool) :
    toToken ⟨List.replicate j ' ' ++ r, column, line, fresh, anchors⟩ tabs =
      ⟨r, column + j, line, fresh, anchors⟩ := by
  apply gap_blanks hr j
  simp only [List.length_append, List.length_replicate]
  omega

/-- The token behind a line end stands on a fresh line. -/
theorem toToken_lineEnd
    (hr : startsToken r = true) (j : Nat) (tabs : Bool) :
    toToken ⟨'\n' :: (List.replicate j ' ' ++ r), column, line, fresh, anchors⟩
      tabs =
      ⟨r, j, line + 1, true, anchors⟩ := by
  have hlength : j < (List.replicate j ' ' ++ r).length + 1 := by
    simp only [List.length_append, List.length_replicate]
    omega
  rw [toToken, gap, takeBreak?_lineEnd rfl]
  exact (gap_blanks hr j hlength false).trans (by rw [Nat.zero_add])

/-! ## Lines of a scalar -/

theorem lineGap?_blanks (hr : startsWord r = true) (j : Nat)
    (hfuel : j < fuel) :
    lineGap? indent strict fuel
      ⟨List.replicate j ' ' ++ r, column, line, fresh, anchors⟩ =
      some ([], ⟨r, column + j, line, fresh, anchors⟩) := by
  obtain ⟨fuel, rfl⟩ : ∃ k, fuel = k + 1 := ⟨fuel - 1, by omega⟩
  induction j generalizing fuel column with
  | zero =>
    rw [List.replicate_zero, List.nil_append, lineGap?,
      takeBreak?_of_startsWord hr]
    cases r with
    | nil => rfl
    | cons c r =>
      obtain ⟨hblank, htab, -⟩ := startsWord_cons_iff.1 hr
      dsimp only
      split
      next h => exact absurd (List.cons.inj h).1 hblank
      next h => exact absurd (List.cons.inj h).1 htab
      · rfl
  | succ j ih =>
    obtain ⟨fuel, rfl⟩ : ∃ k, fuel = k + 1 := ⟨fuel - 1, by omega⟩
    rw [List.replicate_succ, List.cons_append, lineGap?,
      takeBreak?_of_not_isBreak (by decide)]
    change lineGap? indent strict (fuel + 1)
      ⟨List.replicate j ' ' ++ r, column + 1, line, fresh, anchors⟩ = _
    rw [ih fuel (by omega), Nat.add_right_comm]
    rfl

theorem lineGap?_lines (hbs : ∀ c ∈ bs, isLineEnd c = true)
    (hr : startsWord r = true) (j : Nat) (hfuel : bs.length + j < fuel) :
    lineGap? indent strict fuel
      ⟨bs ++ (List.replicate j ' ' ++ r), 0, line, true, anchors⟩ =
      some (bs, ⟨r, j, line + bs.length, true, anchors⟩) := by
  induction bs generalizing line fuel with
  | nil =>
    rw [List.nil_append, lineGap?_blanks hr j (by simpa using hfuel),
      Nat.zero_add]
    rfl
  | cons b bs ih =>
    obtain ⟨hb, hrest⟩ := List.forall_mem_cons.1 hbs
    obtain ⟨fuel, rfl⟩ : ∃ k, fuel = k + 1 := ⟨fuel - 1, by omega⟩
    rw [List.length_cons] at hfuel
    rw [List.cons_append, lineGap?, takeBreak?_lineEnd hb]
    dsimp only
    rw [ih hrest (by omega), List.length_cons, Nat.add_assoc, Nat.add_comm 1]
    rfl

/-- Line ends and the blanks before the next word are taken in one go. -/
theorem lineGap?_lineEnds {b : Char} (hbs : ∀ c ∈ b :: bs, isLineEnd c = true)
    (hr : startsWord r = true) (j : Nat) (hfuel : bs.length + j + 1 < fuel) :
    lineGap? indent strict fuel
      ⟨b :: bs ++ (List.replicate j ' ' ++ r), column, line, fresh, anchors⟩ =
      some (b :: bs, ⟨r, j, line + 1 + bs.length, true, anchors⟩) := by
  obtain ⟨hb, hrest⟩ := List.forall_mem_cons.1 hbs
  obtain ⟨fuel, rfl⟩ : ∃ k, fuel = k + 1 := ⟨fuel - 1, by omega⟩
  rw [List.cons_append, lineGap?, takeBreak?_lineEnd hb]
  dsimp only
  rw [lineGap?_lines hrest hr j (by omega)]
  rfl

/-! ## Lines of a block -/

/-- The blanks of a line are skipped up to the indentation, behind which
anything but a line end may stand. -/
theorem blockGap?_blanks (j : Nat)
    (hj : column + j < indent ∧ startsWord r = true ∨
      column + j = indent ∧ ∀ c ∈ r.head?, isBreak c = false) (hfuel : j < fuel)
      (widest : Nat) :
    blockGap? (some indent) fuel widest
      ⟨List.replicate j ' ' ++ r, column, line, fresh, anchors⟩ =
      some ([], max widest (column + j),
      ⟨r, column + j, line, fresh, anchors⟩) := by
  obtain ⟨fuel, rfl⟩ : ∃ k, fuel = k + 1 := ⟨fuel - 1, by omega⟩
  induction j generalizing fuel column with
  | zero =>
    rw [List.replicate_zero, List.nil_append, blockGap?]
    dsimp only
    have hblank : isBlank (r.headD 'x') = true → ¬column < indent := by
      intro hblank
      rcases hj with hj | hj
      · cases r with
        | nil => cases hblank
        | cons c r =>
          obtain ⟨hspace, htab, -⟩ := startsWord_cons_iff.1 hj.2
          exact absurd hblank (by simp [isBlank, hspace, htab])
      · omega
    split
    · exact if_neg (mt of_decide_eq_true (hblank rfl))
    · exact if_neg (mt of_decide_eq_true (hblank rfl))
    · have hbreak : takeBreak? ⟨r, column, line, fresh, anchors⟩ = none := by
        rcases hj with hj | hj
        · exact takeBreak?_of_startsWord hj.2
        · cases r with
          | nil => rfl
          | cons c r => exact takeBreak?_of_not_isBreak (hj.2 c rfl)
      rw [hbreak]
      rfl
  | succ j ih =>
    obtain ⟨fuel, rfl⟩ : ∃ k, fuel = k + 1 := ⟨fuel - 1, by omega⟩
    have hinside : column < indent := by omega
    rw [List.replicate_succ, List.cons_append, blockGap?]
    change (if decide (column < indent) then
      blockGap? (some indent) (fuel + 1) widest
      ⟨List.replicate j ' ' ++ r, column + 1, line, fresh, anchors⟩ else _) = _
    rw [if_pos (decide_eq_true hinside)]
    have hcolumn : column + 1 + j = column + (j + 1) := by omega
    rw [ih (by rwa [hcolumn]) fuel (by omega), hcolumn]

theorem blockGap?_lineEnd
    {indent : Option Nat} (hc : isLineEnd c = true) (fuel widest : Nat) :
    blockGap? indent (fuel + 1) widest ⟨c :: r, column, line, fresh, anchors⟩ =
      (blockGap? indent fuel (max widest column)
      ⟨r, 0, line + 1, true, anchors⟩).map
        fun x => (c :: x.1, x.2.1, x.2.2) := by
  rcases isLineEnd_iff.1 hc with rfl | rfl | rfl <;> rfl

/-- Blank lines are taken in one go with the indentation of the next line. -/
theorem blockGap?_lines (hbs : ∀ c ∈ bs, isLineEnd c = true) (j : Nat)
    (hj : j < indent ∧ startsWord r = true ∨ j = indent ∧
      ∀ c ∈ r.head?, isBreak c = false)
    (hfuel : bs.length + j < fuel) (widest : Nat) :
    ∃ w, blockGap? (some indent) fuel widest
      ⟨bs ++ (List.replicate j ' ' ++ r), 0, line, true, anchors⟩ =
      some (bs, w, ⟨r, j, line + bs.length, true, anchors⟩) := by
  induction bs generalizing line fuel widest with
  | nil =>
    refine ⟨max widest j, ?_⟩
    rw [List.nil_append, blockGap?_blanks j (by rwa [Nat.zero_add])
      (by simpa using hfuel), Nat.zero_add]
    rfl
  | cons b bs ih =>
    obtain ⟨hb, hrest⟩ := List.forall_mem_cons.1 hbs
    obtain ⟨fuel, rfl⟩ : ∃ k, fuel = k + 1 := ⟨fuel - 1, by omega⟩
    rw [List.length_cons] at hfuel
    have hlines : bs.length + j < fuel := by omega
    obtain ⟨w, hw⟩ := ih hrest hlines (max widest 0)
    refine ⟨w, ?_⟩
    rw [List.cons_append, blockGap?_lineEnd hb, hw, List.length_cons,
      Nat.add_assoc, Nat.add_comm 1]
    rfl

/-- Where the indentation is not known yet, the first line shows it. -/
theorem blockGap?_first (hc : startsWord (c :: r) = true) (j : Nat)
    (hfuel : j < fuel) (widest : Nat) :
    blockGap? none fuel widest
      ⟨List.replicate j ' ' ++ c :: r, column, line, fresh, anchors⟩ =
      some ([], max widest (column + j),
      ⟨c :: r, column + j, line, fresh, anchors⟩) := by
  obtain ⟨fuel, rfl⟩ : ∃ k, fuel = k + 1 := ⟨fuel - 1, by omega⟩
  induction j generalizing fuel column with
  | zero =>
    obtain ⟨hblank, htab, hbreak⟩ := startsWord_cons_iff.1 hc
    rw [List.replicate_zero, List.nil_append, blockGap?]
    dsimp only
    split
    next h => exact absurd (List.cons.inj h).1 hblank
    next h => exact absurd (List.cons.inj h).1 htab
    · rw [takeBreak?_of_not_isBreak hbreak]
      rfl
  | succ j ih =>
    obtain ⟨fuel, rfl⟩ : ∃ k, fuel = k + 1 := ⟨fuel - 1, by omega⟩
    have hcolumn : column + 1 + j = column + (j + 1) := by omega
    rw [List.replicate_succ, List.cons_append, ← hcolumn]
    exact ih fuel (by omega)

/-- A tab where the indentation should be is malformed. -/
theorem blockGap?_tab
    (j : Nat) (fuel widest : Nat) :
    blockGap? none fuel widest
      ⟨List.replicate j ' ' ++ '\t' :: r, column, line, fresh, anchors⟩ =
      none := by
  induction fuel generalizing j column with
  | zero => rfl
  | succ fuel ih =>
    cases j with
    | zero => rfl
    | succ j => exact ih j

end Cursor

end Yaml

end ProtocolCorpus
