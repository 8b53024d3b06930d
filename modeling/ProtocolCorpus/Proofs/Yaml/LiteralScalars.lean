import ProtocolCorpus.Proofs.Yaml.QuotedScalars

/-!
# Reading blocks of lines

A block of lines is read line by line, and the marks behind its bar say what
becomes of the line ends at its end. A line end at the front of the text is
taken for the one behind the marks, and a tab there for an indentation that is
not allowed: these are the texts that do not come back.
-/

namespace ProtocolCorpus

namespace Yaml

open Cursor

variable {c : Char} {cs r : List Char} {column line : Nat} {fresh : Bool}
  {anchors : List (Text × Node)}

variable {e : Char} {m : Nat}

/-- What becomes of the line ends at the end of a text so that it comes back. -/
def chompingOf (cs : List Char) : Chomping :=
  match cs.reverse with
  | a :: b :: _ =>
    if !isBreak a then .strip else if isBreak b then .keep else .clip
  | [a] => if isBreak a then .keep else .strip
  | [] => .strip

/-- The marks of a block, where `given` says that they name the indentation. -/
def marksOf (given : Bool) (chomping : Chomping) : List Char :=
  (if given then ['2'] else []) ++ match chomping with
    | .strip => ['-']
    | .clip => []
    | .keep => ['+']

theorem chompingOf_append
    {xs ys : List Char} (hne : ys ≠ [])
    (hhead : ∀ c ∈ ys.head?, isBreak c = false) :
    chompingOf (xs ++ ys) = chompingOf ys := by
  unfold chompingOf
  rw [List.reverse_append]
  cases hreverse : ys.reverse with
  | nil => exact absurd (List.reverse_eq_nil_iff.1 hreverse) hne
  | cons a as =>
    cases as with
    | cons b bs => rfl
    | nil =>
      have hys : ys = [a] := by rw [← List.reverse_reverse ys, hreverse]; rfl
      have ha : isBreak a = false := hhead a (by rw [hys]; rfl)
      cases xs.reverse <;> simp [ha]

theorem chompingOf_line
    (hcs : ∀ c ∈ cs, isBreak c = false) :
    chompingOf cs = .strip := by
  have hreverse : ∀ c ∈ cs.reverse, isBreak c = false := fun c hc =>
    hcs c (List.mem_reverse.1 hc)
  unfold chompingOf
  cases hrev : cs.reverse with
  | nil => rfl
  | cons a as =>
    have ha : isBreak a = false :=
      hreverse a (by rw [hrev]; exact List.mem_cons_self)
    cases as <;> simp [ha]

/-- A line with one line end, or with several. -/
theorem chompingOf_lineEnds
    {l bs : List Char} {b : Char} (hne : l ≠ [])
    (hl : ∀ c ∈ l, isBreak c = false) (hbs : ∀ c ∈ b :: bs, isBreak c = true) :
    chompingOf (l ++ b :: bs) = if bs = [] then .clip else .keep := by
  obtain ⟨hb, hrest⟩ := List.forall_mem_cons.1 hbs
  unfold chompingOf
  rw [List.reverse_append, List.reverse_cons, List.append_assoc,
    List.singleton_append]
  cases hrev : bs.reverse with
  | nil =>
    rw [if_pos (List.reverse_eq_nil_iff.1 hrev), List.nil_append]
    cases hline : l.reverse with
    | nil => exact absurd (List.reverse_eq_nil_iff.1 hline) hne
    | cons a as =>
      have ha : isBreak a = false :=
        hl a (List.mem_reverse.1 (by rw [hline]; exact List.mem_cons_self))
      simp [ha, hb]
  | cons a as =>
    have hmem : ∀ c ∈ a :: as, isBreak c = true :=
      fun c hc => hrest c (List.mem_reverse.1 (by rw [hrev]; exact hc))
    have ha : isBreak a = true := hmem a List.mem_cons_self
    rw [if_neg fun hnil => by rw [hnil] at hrev; cases hrev]
    cases as with
    | nil => simp [ha, hb]
    | cons d ds =>
      have hd : isBreak d = true :=
        hmem d (List.mem_cons_of_mem a List.mem_cons_self)
      simp [ha, hd]

theorem chompingOf_allEnds
    (hne : cs ≠ []) (hcs : ∀ c ∈ cs, isBreak c = true) :
    chompingOf cs = .keep := by
  have hreverse : ∀ c ∈ cs.reverse, isBreak c = true := fun c hc =>
    hcs c (List.mem_reverse.1 hc)
  unfold chompingOf
  cases hrev : cs.reverse with
  | nil => exact absurd (List.reverse_eq_nil_iff.1 hrev) hne
  | cons a as =>
    rw [hrev] at hreverse
    have ha : isBreak a = true := hreverse a List.mem_cons_self
    cases as with
    | nil => simp [ha]
    | cons b bs =>
      have hb : isBreak b = true :=
        hreverse b (List.mem_cons_of_mem a List.mem_cons_self)
      simp [ha, hb]

/-! ## Lines -/

def literalShown (c : Char) : List Char :=
  [c]

theorem head_indentChars
    (hc : isBreak c = false) {n : Nat} :
    ∀ d ∈ (indentChars n literalShown false (c :: cs) ++ r).head?, isBreak d =
      false := by
  rw [indentChars_char hc]
  intro d hd
  cases hd
  exact hc

/-- The line end behind a block, if its text has none at its end. -/
def lineTail (cs : List Char) : List Char :=
  if (cs.getLast?.map isBreak).getD false then [] else ['\n']

theorem lineTail_append
    {xs ys : List Char} (hne : ys ≠ []) :
    lineTail (xs ++ ys) = lineTail ys := by
  rw [lineTail, lineTail, List.getLast?_append,
    List.getLast?_eq_some_getLast hne]
  rfl

theorem lineTail_line
    (hne : cs ≠ []) (hcs : ∀ c ∈ cs, isBreak c = false) :
    lineTail cs = ['\n'] := by
  rw [lineTail, List.getLast?_eq_some_getLast hne, Option.map_some,
    hcs _ (List.getLast_mem hne)]
  rfl

theorem lineTail_lineEnds
    (hne : cs ≠ []) (hcs : ∀ c ∈ cs, isBreak c = true) :
    lineTail cs = [] := by
  rw [lineTail, List.getLast?_eq_some_getLast hne, Option.map_some,
    hcs _ (List.getLast_mem hne)]
  rfl

section Lines

variable {chomping : Chomping} {n : Nat} {lead breaks : List Char}
  {wasBlank : Bool}

/-- Lines that are not folded do not depend on how the line before started. -/
theorem blockLines?_wasBlank (fuel : Nat) (s : Cursor) :
    blockLines? false chomping n fuel lead breaks wasBlank s =
      blockLines? false chomping n fuel lead breaks false s := by
  cases fuel with
  | zero => rfl
  | succ fuel =>
    rw [blockLines?.eq_def, blockLines?.eq_def]
    rfl

/-- Where the next line is indented less, the block ends. -/
theorem blockLines?_stop
    (hcolumn : column ≠ n) (fuel : Nat) :
    blockLines? false chomping n (fuel + 1) lead breaks wasBlank
      ⟨r, column, line, fresh, anchors⟩ =
      some (match chomping with
        | .strip => []
        | .clip => lead
        | .keep => lead ++ breaks, ⟨r, column, line, fresh, anchors⟩) := by
  unfold blockLines?
  exact if_neg (by simp [hcolumn])

/-- A line is read up to its end, with the blank lines behind it and the
indentation of the next. -/
theorem blockLines?_line
    {l bs : List Char} {b : Char} {j : Nat} (hl : ∀ c ∈ l, isBreak c = false)
    (hends : ∀ c ∈ b :: bs, isLineEnd c = true)
    (hj : j < n ∧ startsWord r = true ∨ j = n ∧ ∀ c ∈ r.head?, isBreak c =
      false) (fuel : Nat) :
    blockLines? false chomping n (fuel + 1) lead breaks wasBlank
        ⟨l ++ b :: (bs ++ (List.replicate j ' ' ++ r)), n, line,
        fresh, anchors⟩ =
      (blockLines? false chomping n fuel [b] bs false
        ⟨r, j, line + 1 + bs.length, true, anchors⟩).map
        fun x => (lead ++ breaks ++ l ++ x.1, x.2) := by
  obtain ⟨hb, hbs⟩ := List.forall_mem_cons.1 hends
  have hbreak : isBreak b = true := isBreak_of_isLineEnd hb
  have htext : (l ++ b :: (bs ++ (List.replicate j ' ' ++ r))).takeWhile
      (fun c => !isBreak c) = l := by
    rw [List.takeWhile_append_of_pos
      fun c hc => by rw [hl c hc]; rfl, List.takeWhile_cons, hbreak]
    exact List.append_nil l
  have hempty : (l ++ b :: (bs ++ (List.replicate j ' ' ++ r))).isEmpty =
      false := by
    rw [List.isEmpty_eq_false_iff]
    simp
  have hlength : bs.length + j < (bs ++ (List.replicate j ' ' ++ r)).length +
      1 := by
    simp only [List.length_append, List.length_replicate]
    omega
  obtain ⟨w, hgap⟩ :
      ∃ w, blockGap? (some n) ((bs ++ (List.replicate j ' ' ++ r)).length + 1) 0
      ⟨bs ++ (List.replicate j ' ' ++ r), 0, line + 1, true, anchors⟩ =
        some (bs, w, ⟨r, j, line + 1 + bs.length, true, anchors⟩) :=
        blockGap?_lines hbs j hj hlength 0
  rw [blockLines?.eq_def]
  dsimp only
  rw [if_pos (by rw [hempty]; simp), lineText]
  dsimp only
  rw [htext, advance_append, takeBreak?_lineEnd hb]
  dsimp only
  rw [hgap, ← blockLines?_wasBlank fuel]
  exact Option.map_eq_bind.symm

/-- The last line of a block, and what the marks leave of the line ends behind
it. -/
theorem blockLines?_last
    {l bs : List Char} {b : Char} {j : Nat} (hl : ∀ c ∈ l, isBreak c = false)
    (hends : ∀ c ∈ b :: bs, isLineEnd c = true) (hr : startsWord r = true)
    (hj : j < n) (fuel : Nat) :
    blockLines? false chomping n (fuel + 2) lead breaks wasBlank
        ⟨l ++ b :: (bs ++ (List.replicate j ' ' ++ r)), n, line,
        fresh, anchors⟩ =
      some (lead ++ breaks ++ l ++ (match chomping with
        | .strip => []
        | .clip => [b]
        | .keep => b :: bs), ⟨r, j, line + 1 + bs.length, true, anchors⟩) := by
  rw [blockLines?_line hl hends (.inl ⟨hj, hr⟩),
    blockLines?_stop (Nat.ne_of_lt hj)]
  rfl

/-- The lines of a text are read up to the end of the block. -/
theorem blockLines?_literal
    {j : Nat} (hr : startsWord r = true) (hj : j < n) (hne : cs ≠ [])
    (hhead : ∀ c ∈ cs.head?, isBreak c = false)
    (hcs : ∀ c ∈ cs, isPrintable c.toNat = true ∨ c = '\t') {fuel : Nat}
    (hfuel : cs.length < fuel) :
    ∃ line', blockLines? false (chompingOf cs) n fuel lead breaks wasBlank
        ⟨indentChars n literalShown false cs ++
        (lineTail cs ++ (List.replicate j ' ' ++ r)), n, line, fresh, anchors⟩ =
      some (lead ++ breaks ++ cs, ⟨r, j, line', true, anchors⟩) := by
  induction hlength : cs.length using Nat.strongRecOn
    generalizing cs lead breaks wasBlank fuel line fresh with
  | ind m ih =>
    obtain ⟨l, rest, rfl, hl, hrest⟩ :=
      exists_eq_run_append (fun c => !isBreak c) cs
    have hline : ∀ c ∈ l, isBreak c = false := fun c hc => by
      simpa using hl c hc
    have hlne : l ≠ [] := by
      rintro rfl
      obtain ⟨c, cs, hcons⟩ := List.exists_cons_of_ne_nil hne
      rw [List.nil_append] at hcons
      subst hcons
      have hbreak := hrest c rfl
      rw [hhead c rfl] at hbreak
      cases hbreak
    have hshown : ∀ c ∈ l, isBreak c = false ∧ literalShown c = [c] :=
      fun c hc => ⟨hline c hc, rfl⟩
    have hlpos := List.length_pos_iff.2 hlne
    rw [List.length_append] at hlength hfuel
    obtain ⟨fuel, rfl⟩ : ∃ k, fuel = k + 2 := ⟨fuel - 2, by omega⟩
    rw [indentChars_run hshown, List.append_assoc]
    cases rest with
    | nil =>
      have hends : ∀ c ∈ ['\n'], isLineEnd c = true :=
        List.forall_mem_singleton.2 rfl
      refine ⟨line + 1, ?_⟩
      rw [List.append_nil, lineTail_line hlne hline, chompingOf_line hline]
      exact (blockLines?_last hline hends hr hj fuel).trans
        (by rw [List.append_nil]; rfl)
    | cons b rest =>
      have hb : isBreak b = true := by simpa using hrest b rfl
      obtain ⟨bs, rest, rfl, hbs, hrest⟩ := exists_eq_run_append isBreak rest
      have hall : ∀ c ∈ b :: bs, isBreak c = true :=
        List.forall_mem_cons.2 ⟨hb, hbs⟩
      have hends : ∀ c ∈ b :: bs, isLineEnd c = true := by
        intro c hc
        refine isLineEnd_of_isBreak (hall c hc) (hcs c ?_)
        exact List.mem_append_right l (List.mem_append_left rest hc)
      rw [← List.cons_append, indentChars_lineEnds hall (List.cons_ne_nil b bs),
        List.append_assoc]
      cases rest with
      | nil =>
        refine ⟨line + 1 + bs.length, ?_⟩
        rw [List.append_nil, lineTail_append (List.cons_ne_nil b bs),
          lineTail_lineEnds (List.cons_ne_nil b bs) hall,
          chompingOf_lineEnds hlne hline hall]
        by_cases hnil : bs = []
        · subst hnil
          exact (blockLines?_last hline hends hr hj fuel).trans
            (by rw [List.append_assoc]; rfl)
        · rw [if_neg hnil]
          exact (blockLines?_last hline hends hr hj fuel).trans
            (by rw [List.append_assoc])
      | cons d ds =>
        have hd : isBreak d = false := hrest d rfl
        have hlater : ∀ c ∈ d :: ds, isPrintable c.toNat = true ∨ c = '\t' := by
          intro c hc
          exact hcs c
            (List.mem_append_right l (List.mem_append_right (b :: bs) hc))
        simp only [List.length_cons, List.length_append] at hlength hfuel
        obtain ⟨line', hread⟩ : ∃ line',
            blockLines? false (chompingOf (d :: ds)) n (fuel + 1) [b] bs false
            ⟨indentChars n literalShown false (d :: ds) ++
            (lineTail (d :: ds) ++
              (List.replicate j ' ' ++ r)), n, line + 1 + bs.length,
              true, anchors⟩ =
                some ([b] ++ bs ++ d :: ds, ⟨r, j, line', true, anchors⟩) :=
          ih (d :: ds).length (by rw [List.length_cons]; omega)
            (List.cons_ne_nil d ds) hrest hlater
            (by rw [List.length_cons]; omega) rfl
        refine ⟨line', ?_⟩
        rw [← List.append_assoc l, lineTail_append (List.cons_ne_nil d ds),
          chompingOf_append (List.cons_ne_nil d ds) hrest, indentChars_start hd,
          List.append_assoc, List.cons_append, blockLines?_line hline hends
          (.inr ⟨rfl, head_indentChars hd⟩), hread]
        simp

end Lines

/-! ## Blocks -/

theorem blockMarks?_marksOf (he : isLineEnd e = true) (given : Bool)
    (chomping : Chomping) :
    blockMarks?
      ⟨marksOf given chomping ++ e :: r, column, line, false, anchors⟩ =
      some (chomping, if given then some 2 else none,
        ⟨e :: r, column + (marksOf given chomping).length, line, false,
        anchors⟩) := by
  rcases isLineEnd_iff.1 he with rfl | rfl | rfl <;> cases given <;>
    cases chomping <;> cases r <;> rfl

/-- Behind its marks and a line end, a block is what its lines are. -/
theorem block?_header (he : isLineEnd e = true) {floor : Nat}
    (hm : floor - 1 + 2 = m) (given : Bool) (chomping : Chomping) :
    block? false floor ⟨'|' :: (marksOf given chomping ++ e :: r), column, line,
      fresh, anchors⟩ = (do
      let (breaks, widest, s) ← blockGap? (if given then some m else none)
        (r.length + 1) 0
        ⟨r, 0, line + 1, true, anchors⟩
      let (cs, s) ← blockLines? false chomping
        ((if given then some m else none).getD (max (max widest floor) 1))
        (s.rest.length + 1) [] breaks false s
      some (.scalar none false (textOf cs), { s with fresh := true })) := by
  have hadvance :
      advance ⟨'|' :: (marksOf given chomping ++ e :: r), column, line, fresh,
      anchors⟩ 1 =
      ⟨marksOf given chomping ++ e :: r, column + 1, line, false, anchors⟩ :=
      rfl
  subst hm
  rw [block?, hadvance, blockMarks?_marksOf he]
  rcases isLineEnd_iff.1 he with rfl | rfl | rfl <;> cases given <;> rfl

theorem block?_eq_some (he : isLineEnd e = true) {given : Bool}
    {chomping : Chomping}
    {floor n widest : Nat} {breaks : List Char} {s s' : Cursor}
    (hm : floor - 1 + 2 = m)
    (hgap : blockGap? (if given then some m else none) (r.length + 1) 0
      ⟨r, 0, line + 1, true, anchors⟩ =
      some (breaks, widest, s))
    (hn : (if given then some m else none).getD (max (max widest floor) 1) = n)
    (hlines : blockLines? false chomping n (s.rest.length + 1) [] breaks false
      s = some (cs, s')) :
    block? false floor ⟨'|' :: (marksOf given chomping ++ e :: r), column, line,
      fresh, anchors⟩ =
      some (.scalar none false (textOf cs), { s' with fresh := true }) := by
  rw [block?_header he hm, hgap]
  change (do
    let (cs, s) ← blockLines? false chomping
      ((if given then some m else none).getD (max (max widest floor) 1))
      (s.rest.length + 1) [] breaks false s
    some (Node.scalar none false (textOf cs), { s with fresh := true })) = _
  rw [hn, hlines]
  rfl

theorem block?_eq_some_of_given (he : isLineEnd e = true) {chomping : Chomping}
    {floor widest : Nat}
    {breaks : List Char} {s s' : Cursor} (hm : floor - 1 + 2 = m)
    (hgap : blockGap? (some m) (r.length + 1) 0
      ⟨r, 0, line + 1, true, anchors⟩ = some (breaks, widest, s))
    (hlines : blockLines? false chomping m (s.rest.length + 1) [] breaks false
      s = some (cs, s')) :
    block? false floor ⟨'|' :: (marksOf true chomping ++ e :: r), column, line,
      fresh, anchors⟩ =
      some (.scalar none false (textOf cs), { s' with fresh := true }) := by
  have hgiven : blockGap? (if true then some m else none) (r.length + 1) 0
      ⟨r, 0, line + 1, true, anchors⟩ =
      some (breaks, widest, s) := hgap
  exact block?_eq_some he hm hgiven rfl hlines

/-- A text as a block of lines: a line end at its front takes the place of the
one behind the marks. -/
def literalChars (n : Nat) : List Char → List Char
  | [] => []
  | c :: cs =>
    if isBreak c then
      '|' :: (marksOf true (chompingOf (c :: cs)) ++ c ::
        indentChars n literalShown true cs)
    else '|' ::
      (marksOf (c == ' ') (chompingOf (c :: cs)) ++ '\n' ::
      indentChars n literalShown true (c :: cs))

theorem getLast?_indentChars (n : Nat) (atStart : Bool) (cs : List Char) :
    (indentChars n literalShown atStart cs).getLast? = cs.getLast? := by
  induction cs generalizing atStart with
  | nil => rfl
  | cons c cs ih =>
    rw [indentChars]
    split
    · rw [List.getLast?_cons, ih, List.getLast?_cons]
    · rw [literalShown, List.append_assoc, List.getLast?_append,
        List.singleton_append, List.getLast?_cons, ih, List.getLast?_cons]
      rfl

/-- A block of lines ends as its text does. -/
theorem lineTail_literalChars
    (hne : cs ≠ []) (n : Nat) :
    lineTail (literalChars n cs) = lineTail cs := by
  obtain ⟨c, cs, rfl⟩ := List.exists_cons_of_ne_nil hne
  have hlast : (literalChars n (c :: cs)).getLast? = (c :: cs).getLast? := by
    rw [literalChars]
    split
    · rw [← List.cons_append, List.getLast?_append, List.getLast?_cons,
        getLast?_indentChars]
      exact List.getLast?_cons.symm
    · rw [← List.cons_append, List.getLast?_append, List.getLast?_cons,
        getLast?_indentChars, List.getLast?_cons]
      rfl
  rw [lineTail, hlast, lineTail]

variable {floor j : Nat}

theorem length_le_length_literal (n : Nat) (cs ds : List Char) :
    cs.length < (indentChars n literalShown false cs ++ ds).length + 1 := by
  have hlength :=
    length_le_length_indentChars n (fun c => List.cons_ne_nil c []) false cs
  rw [List.length_append]
  exact Nat.lt_succ_of_le (Nat.le_trans hlength (Nat.le_add_right _ _))

/-- The indentation is what the first line shows, unless the marks name it. -/
theorem exists_blockGap?_first
    (hc : isBreak c = false) (htab : c ≠ '\t') (n line : Nat) (r : List Char)
    (anchors : List (Text × Node)) :
    ∃ widest, blockGap? (if c == ' ' then some n else none)
        ((List.replicate n ' ' ++ c :: r).length + 1) 0
        ⟨List.replicate n ' ' ++ c :: r, 0, line, true, anchors⟩ =
      some ([], widest, ⟨c :: r, n, line, true, anchors⟩) ∧
        (c ≠ ' ' → widest = n) := by
  have hlength : n < (List.replicate n ' ' ++ c :: r).length + 1 := by
    simp only [List.length_append, List.length_replicate]
    omega
  refine ⟨max 0 (0 + n), ?_, fun _ => by omega⟩
  by_cases hblank : c = ' '
  · subst hblank
    have hstop : 0 + n < n ∧ startsWord (' ' :: r) = true ∨
        0 + n = n ∧ ∀ d ∈ (' ' :: r).head?, isBreak d = false := by
      refine .inr ⟨Nat.zero_add n, ?_⟩
      intro d hd
      cases hd
      rfl
    exact (blockGap?_blanks n hstop hlength 0).trans (by rw [Nat.zero_add])
  · have hstart : startsWord (c :: r) = true :=
      startsWord_cons_iff.2 ⟨hblank, htab, hc⟩
    rw [if_neg (by simpa using hblank)]
    exact (blockGap?_first hstart n hlength 0).trans (by rw [Nat.zero_add])

/-- A block of lines is read as its text, if that starts with neither a line end
nor a tab. -/
theorem block?_literal
    (hr : startsWord r = true) (hfloor : 0 < floor) (hj : j < floor)
    (hc : isBreak c = false) (htab : c ≠ '\t')
    (hcs : ∀ d ∈ c :: cs, isPrintable d.toNat = true ∨ d = '\t') :
    ∃ line',
        block? false floor
        ⟨literalChars (floor + 1) (c :: cs) ++ (lineTail (c :: cs) ++
        (List.replicate j ' ' ++ r)), column, line, fresh, anchors⟩ =
      some (.scalar none false (textOf (c :: cs)),
        ⟨r, j, line', true, anchors⟩) := by
  have hindent : floor - 1 + 2 = floor + 1 := by omega
  have hhead : ∀ d ∈ (c :: cs).head?, isBreak d = false := by
    intro d hd
    cases hd
    exact hc
  obtain ⟨widest, hgap, hwidest⟩ :=
    exists_blockGap?_first hc htab (floor + 1) (line + 1)
    (indentChars (floor + 1) literalShown false cs ++
      (lineTail (c :: cs) ++ (List.replicate j ' ' ++ r))) anchors
  have hn : (if c == ' ' then some (floor + 1) else none).getD
      (max (max widest floor) 1) = floor + 1 := by
    by_cases hblank : c = ' '
    · rw [if_pos (beq_iff_eq.2 hblank)]
      rfl
    · rw [if_neg (by simpa using hblank), Option.getD_none, hwidest hblank]
      omega
  obtain ⟨line', hlines⟩ : ∃ line', blockLines? false (chompingOf (c :: cs))
      (floor + 1) _ [] [] false
      ⟨indentChars (floor + 1) literalShown false (c :: cs) ++
      (lineTail (c :: cs) ++
        (List.replicate j ' ' ++ r)), floor + 1, line + 1, true, anchors⟩ =
        some ([] ++ [] ++ c :: cs, ⟨r, j, line', true, anchors⟩) :=
    blockLines?_literal hr (Nat.lt_succ_of_lt hj)
      (List.cons_ne_nil c cs) hhead hcs
      (length_le_length_literal (floor + 1) (c :: cs)
      (lineTail (c :: cs) ++ (List.replicate j ' ' ++ r)))
  refine ⟨line', ?_⟩
  rw [literalChars, hc, if_neg Bool.noConfusion, indentChars_start hc,
    List.cons_append, List.append_assoc, List.cons_append, List.append_assoc]
  rw [indentChars_char hc] at hlines ⊢
  exact block?_eq_some rfl hindent hgap hn hlines

/-- A line end at the front of a text is lost. -/
theorem block?_lineEnd
    (hr : startsWord r = true) (hfloor : 0 < floor) (hj : j < floor)
    (hc : isBreak c = true)
    (hcs : ∀ d ∈ c :: cs, isPrintable d.toNat = true ∨ d = '\t') :
    ∃ line',
        block? false floor
        ⟨literalChars (floor + 1) (c :: cs) ++ (lineTail (c :: cs) ++
        (List.replicate j ' ' ++ r)), column, line, fresh, anchors⟩ =
      some (.scalar none false (textOf cs), ⟨r, j, line', true, anchors⟩) := by
  have hindent : floor - 1 + 2 = floor + 1 := by omega
  obtain ⟨bs, rest, rfl, hbs, hrest⟩ := exists_eq_run_append isBreak cs
  have hall : ∀ d ∈ c :: bs, isBreak d = true :=
    List.forall_mem_cons.2 ⟨hc, hbs⟩
  have hends : ∀ d ∈ c :: bs, isLineEnd d = true := by
    intro d hd
    exact isLineEnd_of_isBreak (hall d hd)
      (hcs d (List.mem_append_left rest hd))
  obtain ⟨hend, hbsends⟩ := List.forall_mem_cons.1 hends
  have hprinted : indentChars (floor + 1) literalShown true (bs ++ rest) =
      bs ++ indentChars (floor + 1) literalShown true rest := by
    cases bs with
    | nil => rfl
    | cons b bs => exact indentChars_lineEnds hbs (List.cons_ne_nil b bs) true
  rw [literalChars, if_pos hc, List.cons_append, List.append_assoc,
    List.cons_append, hprinted, List.append_assoc]
  cases rest with
  | nil =>
    have hlength : bs.length + j < (bs ++ (List.replicate j ' ' ++ r)).length +
        1 := by
      simp only [List.length_append, List.length_replicate]
      omega
    obtain ⟨w, hgap⟩ : ∃ w, blockGap? (some (floor + 1))
        ((bs ++ (List.replicate j ' ' ++ r)).length + 1) 0
        ⟨bs ++ (List.replicate j ' ' ++ r), 0, line + 1, true, anchors⟩ =
          some (bs, w, ⟨r, j, line + 1 + bs.length, true, anchors⟩) :=
      blockGap?_lines hbsends j (.inl ⟨Nat.lt_succ_of_lt hj, hr⟩) hlength 0
    refine ⟨line + 1 + bs.length, ?_⟩
    rw [List.append_nil, lineTail_lineEnds (List.cons_ne_nil c bs) hall,
      chompingOf_allEnds (List.cons_ne_nil c bs) hall]
    have hstop : j ≠ floor + 1 := by omega
    exact block?_eq_some_of_given hend hindent hgap (blockLines?_stop hstop _)
  | cons d ds =>
    have hd : isBreak d = false := hrest d rfl
    have hlater : ∀ x ∈ d :: ds, isPrintable x.toNat = true ∨ x = '\t' := by
      intro x hx
      exact hcs x (List.mem_append_right (c :: bs) hx)
    obtain ⟨line', hlines⟩ : ∃ line', blockLines? false (chompingOf (d :: ds))
        (floor + 1) _ [] bs false
        ⟨indentChars (floor + 1) literalShown false (d :: ds) ++
        (lineTail (d :: ds) ++
          (List.replicate j ' ' ++ r)), floor + 1, line + 1 + bs.length,
          true, anchors⟩ =
            some ([] ++ bs ++ d :: ds, ⟨r, j, line', true, anchors⟩) :=
      blockLines?_literal hr (Nat.lt_succ_of_lt hj) (List.cons_ne_nil d ds)
        hrest hlater
        (length_le_length_literal (floor + 1) (d :: ds)
        (lineTail (d :: ds) ++ (List.replicate j ' ' ++ r)))
    have hlength : bs.length + (floor + 1) <
        (bs ++ (List.replicate (floor + 1) ' ' ++
        (indentChars (floor + 1) literalShown false (d :: ds) ++
        (lineTail (d :: ds) ++
          (List.replicate j ' ' ++ r))))).length + 1 := by
      simp only [List.length_append, List.length_replicate]
      omega
    obtain ⟨w, hgap⟩ :=
      blockGap?_lines hbsends (floor + 1)
        (.inr ⟨rfl, head_indentChars hd⟩) hlength 0
    have hsplit : c :: (bs ++ d :: ds) = (c :: bs) ++ d :: ds := rfl
    refine ⟨line', ?_⟩
    rw [hsplit, lineTail_append (List.cons_ne_nil d ds),
      chompingOf_append (List.cons_ne_nil d ds) hrest, indentChars_start hd,
      List.append_assoc]
    exact block?_eq_some_of_given hend hindent hgap hlines

/-- A tab at the front of a text makes the block malformed. -/
theorem block?_tab (floor : Nat) (cs : List Char) :
    block? false floor ⟨literalChars (floor + 1) ('\t' :: cs) ++ r, column,
    line, fresh, anchors⟩ = none := by
  have hgap : blockGap? none ((List.replicate (floor + 1) ' ' ++ '\t' ::
      (indentChars (floor + 1) literalShown false cs ++ r)).length + 1) 0
      ⟨List.replicate (floor + 1) ' ' ++ '\t' ::
        (indentChars (floor + 1) literalShown false cs ++ r), 0, line + 1, true,
        anchors⟩ = none :=
    blockGap?_tab (floor + 1) _ 0
  have hchars : literalChars (floor + 1) ('\t' :: cs) ++ r =
      '|' :: (marksOf false (chompingOf ('\t' :: cs)) ++ '\n' ::
      (List.replicate (floor + 1) ' ' ++ '\t' ::
        (indentChars (floor + 1) literalShown false cs ++ r))) := by
    have htab : isBreak '\t' = false := rfl
    rw [literalChars, htab, if_neg Bool.noConfusion, indentChars_start htab,
      indentChars_char htab]
    simp [literalShown]
  rw [hchars, block?_header rfl rfl, if_neg Bool.noConfusion, hgap]
  rfl

end Yaml

end ProtocolCorpus
