import ProtocolCorpus.Proofs.Yaml.Rendered

/-!
# Reading leaves

What comes back of a tree that was written, and that a leaf of it is read to
the end of its line, whatever stands on the next one.
-/

namespace ProtocolCorpus

namespace Yaml

open Cursor

variable {t : Text}

/-! ## What comes back -/

/-- What comes back of a text. A block of lines loses a line end at its front,
and is malformed if it starts with a tab. -/
def reread (t : Text) : Option Text :=
  match style (readsAsText t) t, Text.chars t with
  | .literal, c :: cs =>
    if isBreak c then some (Text.ofChars cs) else if c = '\t' then none
    else some t
  | _, _ => some t

mutual

/-- What comes back of a tree. A list that is not there comes back as an empty
one. -/
def datum? : Tree → Option Datum
  | .absent => some (.list [])
  | .bool b => some (plainDatum (if b then "true" else "false"))
  | .int n => some (plainDatum (Text.ofInt n))
  | .text t => (reread t).map textDatum
  | .list ts => (itemData? ts).map .list
  | .record ms => (memberData? ms).map .record

def itemData? : List Tree → Option (List Datum)
  | [] => some []
  | t :: ts => (datum? t).bind fun d => (itemData? ts).map (d :: ·)

def memberData? : List (Text × Tree) → Option (List (Text × Datum))
  | [] => some []
  | (k, t) :: ms => (datum? t).bind fun d => (memberData? ms).map ((k, d) :: ·)

end

/-- Reading gives what was expected, or nothing if nothing was, and the next
token is `r` on a fresh line at column `j`. -/
def Reads {α β : Type} (Denotes : α → β → Prop) (expected : Option β)
    (r : List Char) (j : Nat)
    (anchors : List (Text × Node)) (result : Option (α × Cursor)) : Prop :=
  match expected with
  | none => result = none
  | some b =>
    ∃ a s line, result = some (a, s) ∧ Denotes a b ∧ s.toToken true =
      ⟨r, j, line, true, anchors⟩

def Node.Denotes (n : Node) (d : Datum) : Prop :=
  n.datum = d

variable {c : Char} {cs r : List Char} {column line j : Nat} {fresh : Bool}
  {anchors : List (Text × Node)}
  {n : Node} {fuel floor : Nat} {keys value : Bool}

theorem toToken_self
    (hr : startsToken r = true) (tabs : Bool) :
    toToken ⟨r, column, line, fresh, anchors⟩ tabs =
      ⟨r, column, line, fresh, anchors⟩ :=
  toToken_blanks hr 0 tabs

/-! ## Nodes on a line -/

def keyNode (fuel : Nat) (s : Cursor) : Option (Node × Cursor) :=
  match s.peek? with
  | some '[' => flowNode fuel s
  | some '\x7b' => flowNode fuel s
  | some '\x27' => quoted? s
  | some '\x22' => quoted? s
  | some '*' => repeated? s
  | _ =>
    if startsPlain false s.rest then
      (plain? false false 0 s).map fun (cs, s) =>
        (Node.scalar none true (textOf cs), s)
    else none

/-- The node that is neither a list nor a record in a block. -/
def lineNode (fuel floor : Nat) (value : Bool)
    (s : Cursor) : Option (Node × Cursor) :=
  match s.peek? with
  | some '&' => taggedNode fuel floor value s
  | some '!' => taggedNode fuel floor value s
  | some '|' => block? false floor s
  | some '>' => block? true floor s
  | some '[' => flowNode fuel s
  | some '\x7b' => flowNode fuel s
  | some '\x27' => quoted? s
  | some '\x22' => quoted? s
  | some '*' => repeated? s
  | _ =>
    if startsPlain false s.rest then
      (plain? false true floor s).map fun (cs, s) =>
        (.scalar none true (textOf cs), s)
    else none

theorem properties?_none
    (hanchor : c ≠ '&') (htag : c ≠ '!') :
    properties? false 3 none none ⟨c :: cs, column, line, fresh, anchors⟩ =
      some (none, none, ⟨c :: cs, column, line, fresh, anchors⟩) := by
  rw [properties?]
  split
  next h => exact absurd (Option.some.inj h) hanchor
  next h => exact absurd (Option.some.inj h) htag
  · rfl

/-- A key is a node with a colon behind it on its line. -/
theorem key?_eq_bind
    (hanchor : c ≠ '&') (htag : c ≠ '!') :
    key? fuel ⟨c :: cs, column, line, fresh, anchors⟩ =
      (keyNode fuel ⟨c :: cs, column, line, fresh, anchors⟩).bind fun x =>
        let next := x.2.skip (x.2.rest.takeWhile isBlank).length
        if next.line = line &&
          next.isMark ':' then some (withTag none x.1, next.advance 1)
          else none := by
  rw [key?, properties?_none hanchor htag, keyNode]
  dsimp only [bind, Option.bind_some]
  generalize peek? ⟨c :: cs, column, line, fresh, anchors⟩ = first
  split
  · rfl
  · rfl
  · rfl
  · rfl
  · rfl
  -- The other side still matches on the same character, if the split has not
  -- decided it with this one.
  · split
    · try simp only
      rfl
    · try simp only
      rfl

/-- What ends at the end of a line is no key. -/
theorem key?_eq_none
    (hanchor : c ≠ '&') (htag : c ≠ '!')
    (hnode : ∀ n s, keyNode fuel ⟨c :: cs, column, line, fresh, anchors⟩ =
      some (n, s) → s.peek? = some '\n') :
    key? fuel ⟨c :: cs, column, line, fresh, anchors⟩ = none := by
  rw [key?_eq_bind hanchor htag]
  cases hkey : keyNode fuel ⟨c :: cs, column, line, fresh, anchors⟩ with
  | none => rfl
  | some x =>
    obtain ⟨n, ⟨rest, column', line', fresh', anchors'⟩⟩ := x
    obtain ⟨rest, rfl⟩ := List.head?_eq_some_iff.1 (hnode n _ hkey)
    refine if_neg ?_
    rw [Bool.and_eq_true]
    rintro ⟨-, hmark⟩
    cases hmark

/-- A node on the line of its key or dash. -/
theorem blockNode_line
    (hc : startsToken (c :: cs) = true)
    (hkey : key? fuel ⟨c :: cs, column + 1, line, false, anchors⟩ = none)
    (hmarks : ∀ d ∈ ['?', ':', '-'],
      isMark ⟨c :: cs, column + 1, line, false, anchors⟩ d = false) :
    blockNode (fuel + 1) floor keys value
      ⟨' ' :: c :: cs, column, line, false, anchors⟩ =
      lineNode fuel floor value
      ⟨c :: cs, column + 1, line, false, anchors⟩ := by
  have htoken : toToken ⟨' ' :: c :: cs, column, line, false, anchors⟩ (!keys) =
      ⟨c :: cs, column + 1, line, false, anchors⟩ := toToken_blanks hc 1 (!keys)
  have hend : atEnd ⟨c :: cs, column + 1, line, false, anchors⟩ = false := by
    rw [atEnd, atDocumentMark_of_pos (Nat.succ_pos column)]
    rfl
  have hquestion := hmarks '?' (by simp)
  have hcolon := hmarks ':' (by simp)
  have hdash := hmarks '-' (by simp)
  rw [blockNode, htoken]
  dsimp only
  rw [hend, hkey, hquestion, hcolon, hdash]
  rfl

/-- A plain scalar starts with no mark of another kind of node. -/
theorem not_mem_of_startsPlain
    (hstart : startsPlain false (c :: cs) = true) :
    c ∉ ['&', '!', '|', '>', '[', '\x7b', '\x27', '\x22', '*', '#'] := by
  intro hc
  simp only [List.mem_cons, List.not_mem_nil, or_false] at hc
  rcases hc with rfl | rfl | rfl | rfl | rfl | rfl | rfl | rfl | rfl | rfl <;>
    cases hstart

theorem keyNode_of_startsPlain
    (hstart : startsPlain false (c :: cs) = true) :
    keyNode fuel ⟨c :: cs, column, line, fresh, anchors⟩ =
      (plain? false false 0 ⟨c :: cs, column, line, fresh, anchors⟩).map
        fun x => (Node.scalar none true (textOf x.1), x.2) := by
  have hfree := not_mem_of_startsPlain hstart
  rw [keyNode]
  split <;> first
    | exact if_pos hstart
    | next h =>
      cases h
      exact absurd (by simp) hfree

theorem lineNode_of_startsPlain
    (hstart : startsPlain false (c :: cs) = true) :
    lineNode fuel floor value ⟨c :: cs, column, line, fresh, anchors⟩ =
      (plain? false true floor ⟨c :: cs, column, line, fresh, anchors⟩).map
        fun x => (Node.scalar none true (textOf x.1), x.2) := by
  have hfree := not_mem_of_startsPlain hstart
  rw [lineNode]
  split <;> first
    | exact if_pos hstart
    | next h =>
      cases h
      exact absurd (by simp) hfree

/-- A plain text starts with no mark of a key, a value or an item. -/
theorem isMark_plain
    (hne : cs ≠ []) (hcs : PlainText none cs) (r : List Char) :
    ∀ d ∈ ['?', ':', '-'], isMark ⟨cs ++ r, column, line, fresh, anchors⟩ d =
      false := by
  obtain ⟨c, cs, rfl⟩ := List.exists_cons_of_ne_nil hne
  obtain ⟨-, hordinary⟩ := List.forall_mem_cons.1 hcs.ordinary
  intro d hd
  change (decide (d = c) && endsWord (cs ++ r)) = false
  by_cases hdc : d = c
  · subst hdc
    have hmark := hcs.unmarked
    rw [List.map_cons, anyAt, Bool.or_eq_false_iff] at hmark
    have hfollows : (((cs.map Char.toNat).head?).map isBlankCode).getD true =
        false := by
      simp only [List.mem_cons, List.not_mem_nil, or_false] at hd
      rcases hd with rfl | rfl | rfl <;> simpa [isIndicator, isLeadingIndicator]
        using hmark.1
    rw [endsWord_eq_false hordinary hfollows, Bool.and_false]
  · rw [decide_eq_false hdc, Bool.false_and]

/-! ## Leaves -/

/-- A node that ends at the end of its line is read up to the next token. -/
theorem reads_line
    {s : Cursor} {line' : Nat} (hc : startsToken (c :: cs) = true)
    (hanchor : c ≠ '&') (htag : c ≠ '!')
    (hmarks : ∀ d ∈ ['?', ':', '-'],
      isMark ⟨c :: cs, column + 1, line, false, anchors⟩ d = false)
      (hkey : ∀ n s, keyNode fuel ⟨c :: cs, column + 1, line, false, anchors⟩ =
      some (n, s) → s.peek? = some '\n')
    (hline : lineNode fuel floor value
      ⟨c :: cs, column + 1, line, false, anchors⟩ = some (n, s))
    (hs : s.toToken true = ⟨r, j, line', true, anchors⟩) :
    Reads Node.Denotes (some n.datum) r j anchors
      (blockNode (fuel + 1) floor keys value
      ⟨' ' :: c :: cs, column, line, false, anchors⟩) := by
  refine ⟨n, s, line', ?_, rfl, hs⟩
  rw [blockNode_line hc (key?_eq_none hanchor htag hkey) hmarks, hline]

theorem startsToken_of_startsPlain
    (hstart : startsPlain false (c :: cs) = true) :
    startsToken (c :: cs) = true := by
  have hcomment : c ≠ '#' := by
    rintro rfl
    cases hstart
  have hgap : (isBlank c || isBreak c) = false := by
    rw [startsPlain] at hstart
    split at hstart
    · cases hstart
    next hgap => exact Bool.eq_false_iff.2 hgap
  rw [Bool.or_eq_false_iff] at hgap
  rw [startsToken, startsWord, hgap.1, hgap.2]
  simpa using hcomment

theorem reads_plain
    (hne : cs ≠ []) (hcs : PlainText none cs) (hr : startsToken r = true)
    (hj : j < floor) :
    Reads Node.Denotes (some (plainDatum (textOf cs))) r j anchors
      (blockNode (fuel + 1) floor keys value
      ⟨' ' :: (cs ++ '\n' :: (List.replicate j ' ' ++ r)), column, line, false,
      anchors⟩) := by
  have hmark :
    atDocumentMark ⟨cs ++ '\n' :: (List.replicate j ' ' ++ r), column + 1, line,
    false, anchors⟩ = false :=
    atDocumentMark_of_pos (Nat.succ_pos column)
  have hread : ∀ lines indent, (lines = true → j < indent) →
      plain? false lines indent
      ⟨cs ++ '\n' :: (List.replicate j ' ' ++ r), column + 1, line,
      false, anchors⟩ =
        some (cs, behindPlain lines j r (column + 1 + cs.length)
        line anchors) :=
    fun lines indent hindent =>
      plain?_plain hne hcs (startsWord_of_startsToken hr) hindent hmark
  have hmarks : ∀ d ∈ ['?', ':', '-'],
      isMark ⟨cs ++ '\n' :: (List.replicate j ' ' ++ r), column + 1, line,
      false, anchors⟩ d = false :=
    isMark_plain hne hcs _
  have hstart := startsPlain_plain hne hcs ('\n' :: (List.replicate j ' ' ++ r))
  obtain ⟨c, cs, rfl⟩ := List.exists_cons_of_ne_nil hne
  rw [List.cons_append] at hread hmarks hstart ⊢
  have hfree := not_mem_of_startsPlain hstart
  have hkey :
      ∀ n s, keyNode fuel
      ⟨c :: (cs ++ '\n' :: (List.replicate j ' ' ++ r)), column + 1,
      line, false, anchors⟩ = some (n, s) → s.peek? = some '\n' := by
    intro n s hs
    rw [keyNode_of_startsPlain hstart, hread false 0 fun h => by cases h] at hs
    cases hs
    rfl
  have hline :
      lineNode fuel floor value
      ⟨c :: (cs ++ '\n' :: (List.replicate j ' ' ++ r)), column + 1,
      line, false, anchors⟩ =
      some (.scalar none true (textOf (c :: cs)),
      ⟨r, j, line + 1, true, anchors⟩) := by
    rw [lineNode_of_startsPlain hstart, hread true floor fun _ => hj]
    rfl
  refine reads_line (startsToken_of_startsPlain hstart) ?_ ?_ hmarks hkey hline
    (toToken_self hr true)
  · rintro rfl
    exact hfree (by simp)
  · rintro rfl
    exact hfree (by simp)

theorem isMark_eq_false
    (hc : c ∉ ['?', ':', '-']) :
    ∀ d ∈ ['?', ':', '-'], isMark ⟨c :: cs, column, line, fresh, anchors⟩ d =
      false := by
  intro d hd
  have hne : d ≠ c := fun h => hc (h ▸ hd)
  change (decide (d = c) && endsWord cs) = false
  rw [decide_eq_false hne, Bool.false_and]

/-- A node that says by its first character where it ends is read up to the next
token. -/
theorem reads_enclosed
    (hc : c ∈ ['[', '\x7b', '\x27', '\x22']) (hr : startsToken r = true)
    (hline : ∃ column' line', lineNode fuel floor value
      ⟨c :: cs, column + 1, line, false, anchors⟩ =
      some (n, ⟨'\n' :: (List.replicate j ' ' ++ r), column', line', false,
        anchors⟩)) :
    Reads Node.Denotes (some n.datum) r j anchors
      (blockNode (fuel + 1) floor keys value
      ⟨' ' :: c :: cs, column, line, false, anchors⟩) := by
  obtain ⟨column', line', hline⟩ := hline
  have hfree : c ≠ '&' ∧ c ≠ '!' ∧ c ∉ ['?', ':', '-'] := by
    simp only [List.mem_cons, List.not_mem_nil, or_false] at hc
    rcases hc with rfl | rfl | rfl | rfl <;> decide
  have hsame : keyNode fuel ⟨c :: cs, column + 1, line, false, anchors⟩ =
      lineNode fuel floor value ⟨c :: cs, column + 1, line, false, anchors⟩ ∧
      startsToken (c :: cs) = true := by
    simp only [List.mem_cons, List.not_mem_nil, or_false] at hc
    rcases hc with rfl | rfl | rfl | rfl <;> exact ⟨rfl, rfl⟩
  refine reads_line hsame.2 hfree.1 hfree.2.1 (isMark_eq_false hfree.2.2)
    ?_ hline (toToken_lineEnd hr j true)
  intro n s hkey
  rw [hsame.1, hline] at hkey
  cases hkey
  rfl

/-- A block of lines is no key. -/
theorem blockNode_literal
    (fuel : Nat) :
    blockNode (fuel + 1) floor keys value
      ⟨' ' :: '|' :: cs, column, line, false, anchors⟩ =
      block? false floor ⟨'|' :: cs, column + 1, line, false, anchors⟩ := by
  have hkey : key? fuel ⟨'|' :: cs, column + 1, line, false, anchors⟩ =
      none := by
    apply key?_eq_none (by decide) (by decide)
    intro n s hnode
    cases hnode
  exact blockNode_line rfl hkey (isMark_eq_false (by decide))

/-! ## Texts -/

theorem datum_of_readsAsText (h : readsAsText t = true) :
    plainDatum t = textDatum t := by
  simp only [readsAsText, Bool.and_eq_true, beq_iff_eq] at h
  rw [plainDatum, h.1.1.1]
  rfl

theorem reads_literal (ht : Text.isWellFormed t = true)
    (hstyle : style (readsAsText t) t = .literal) (hr : startsToken r = true)
    (hfloor : 0 < floor) (hj : j < floor) :
    Reads Node.Denotes ((reread t).map textDatum) r j anchors
      (blockNode (fuel + 1) floor keys value
      ⟨' ' :: (literalChars (floor + 1) (Text.chars t) ++
      (lineTail (Text.chars t) ++ (List.replicate j ' ' ++ r))),
        column, line, false, anchors⟩) := by
  have hword := startsWord_of_startsToken hr
  have hprintable : ∀ c ∈ Text.chars t, isPrintable c.toNat = true ∨ c = '\t' :=
    fun c hc => isPrintable_or_eq_tab_of_style ht hstyle hc
  have htext : Text.ofChars (Text.chars t) = t := Text.ofChars_chars ht
  obtain ⟨c, cs, hcs⟩ :=
    List.exists_cons_of_ne_nil
      (chars_ne_nil ht (ne_nil_of_style (by rw [hstyle]; decide)))
  have hreread : reread t =
      if isBreak c then some (Text.ofChars cs) else if c = '\t' then none
      else some t := by
    rw [reread, hstyle, hcs]
  rw [hcs] at hprintable htext ⊢
  obtain ⟨marks, hliteral⟩ : ∃ marks, literalChars (floor + 1) (c :: cs) =
      '|' :: marks := by
    rw [literalChars]
    split
    · exact ⟨_, rfl⟩
    · exact ⟨_, rfl⟩
  have hblock : ∀ rest, blockNode (fuel + 1) floor keys value
      ⟨' ' :: (literalChars (floor + 1) (c :: cs) ++ rest), column, line,
      false, anchors⟩ =
        block? false floor
        ⟨literalChars (floor + 1) (c :: cs) ++ rest, column + 1, line, false,
        anchors⟩ := by
    intro rest
    rw [hliteral]
    exact blockNode_literal fuel
  rw [hreread, hblock]
  by_cases hbreak : isBreak c = true
  · obtain ⟨line', hread⟩ : ∃ line',
        block? false floor
        ⟨literalChars (floor + 1) (c :: cs) ++ (lineTail (c :: cs) ++
        (List.replicate j ' ' ++ r)), column + 1, line, false, anchors⟩ =
          some (.scalar none false (textOf cs), ⟨r, j, line', true, anchors⟩) :=
      block?_lineEnd hword hfloor hj hbreak hprintable
    rw [if_pos hbreak, hread]
    exact ⟨_, _, line', rfl, rfl, toToken_self hr true⟩
  · by_cases htab : c = '\t'
    · subst htab
      exact block?_tab floor cs
    · obtain ⟨line', hread⟩ : ∃ line',
          block? false floor ⟨literalChars (floor + 1) (c :: cs) ++
          (lineTail (c :: cs) ++ (List.replicate j ' ' ++ r)), column + 1, line,
          false, anchors⟩ =
            some (.scalar none false (textOf (c :: cs)),
            ⟨r, j, line', true, anchors⟩) :=
        block?_literal hword hfloor hj (Bool.eq_false_iff.2 hbreak)
          htab hprintable
      rw [if_neg hbreak, if_neg htab, hread]
      refine ⟨_, _, line', rfl, ?_, toToken_self hr true⟩
      exact congrArg textDatum htext

theorem reads_quoted (hc : c = '\x27' ∨ c = '\x22') (hr : startsToken r = true)
    (hquoted : ∃ column' line',
      quoted? ⟨c :: (cs ++ c :: '\n' :: (List.replicate j ' ' ++ r)),
      column + 1, line, false, anchors⟩ =
        some (.scalar none false t,
          ⟨'\n' :: (List.replicate j ' ' ++ r), column', line', false,
          anchors⟩)) :
    Reads Node.Denotes (some (textDatum t)) r j anchors
      (blockNode (fuel + 1) floor keys value
      ⟨' ' :: (c :: (cs ++ [c]) ++
      (lineTail (c :: (cs ++ [c])) ++ (List.replicate j ' ' ++ r))),
      column, line, false, anchors⟩) := by
  have hbreak : isBreak c = false := by
    rcases hc with rfl | rfl <;> rfl
  have htail : lineTail (c :: (cs ++ [c])) = ['\n'] := by
    rw [← List.cons_append, lineTail_append (List.cons_ne_nil c []),
      lineTail_line (List.cons_ne_nil c [])]
    exact List.forall_mem_singleton.2 hbreak
  rw [htail, List.cons_append, List.append_assoc]
  rcases hc with rfl | rfl
  · exact reads_enclosed (n := .scalar none false t) (by simp) hr hquoted
  · exact reads_enclosed (n := .scalar none false t) (by simp) hr hquoted

/-- A plain text is read up to the next token, as whatever it looks like. -/
theorem reads_plainText (ht : Text.isWellFormed t = true)
    (hne : Text.chars t ≠ []) (hplain : PlainText none (Text.chars t))
    (hr : startsToken r = true) (hj : j < floor) :
    Reads Node.Denotes (some (plainDatum t)) r j anchors
      (blockNode (fuel + 1) floor keys value
      ⟨' ' :: (Text.chars t ++
      (lineTail (Text.chars t) ++ (List.replicate j ' ' ++ r))), column,
      line, false, anchors⟩) := by
  have hdatum : plainDatum t = plainDatum (textOf (Text.chars t)) :=
    congrArg plainDatum (Text.ofChars_chars ht).symm
  rw [hdatum, lineTail_plain hne hplain]
  exact reads_plain hne hplain hr hj

/-- A text is read up to the next token, as what comes back of it. -/
theorem reads_scalar (ht : Text.isWellFormed t = true)
    (hr : startsToken r = true) (hfloor : 0 < floor) (hj : j < floor) :
    Reads Node.Denotes ((reread t).map textDatum) r j anchors
      (blockNode (fuel + 1) floor keys value
      ⟨' ' :: (scalarChars (floor + 1) t ++
      (lineTail (scalarChars (floor + 1) t) ++ (List.replicate j ' ' ++ r))),
        column, line, false, anchors⟩) := by
  have htext : textOf (Text.chars t) = t := Text.ofChars_chars ht
  rw [scalarChars]
  cases hstyle : style (readsAsText t) t with
  | plain =>
    obtain ⟨hreads, hplain⟩ := plainText_of_style ht hstyle
    have hne : Text.chars t ≠ [] :=
      chars_ne_nil ht (ne_nil_of_style (by rw [hstyle]; decide))
    have hreread : reread t = some t := by rw [reread, hstyle]
    rw [hreread, Option.map_some, ← datum_of_readsAsText hreads]
    exact reads_plainText ht hne hplain hr hj
  | singleQuoted =>
    have hreread : reread t = some t := by rw [reread, hstyle]
    have hquoted : ∃ column' line',
        quoted? ⟨'\x27' ::
        (indentChars (floor + 1) singleShown false (Text.chars t) ++
        '\x27' :: '\n' :: (List.replicate j ' ' ++ r)), column + 1, line,
        false, anchors⟩ =
          some (.scalar none false (textOf (Text.chars t)),
            ⟨'\n' :: (List.replicate j ' ' ++ r), column', line', false,
            anchors⟩) :=
      quoted?_single (quotableText_of_style ht hstyle) (Nat.succ_pos floor)
        (by simp)
    rw [htext] at hquoted
    rw [hreread]
    exact reads_quoted (.inl rfl) hr hquoted
  | doubleQuoted =>
    have hreread : reread t = some t := by rw [reread, hstyle]
    have hquoted : ∃ column' line',
        quoted? ⟨'\x22' :: ((Text.chars t).flatMap doubleShown ++
        '\x22' :: '\n' :: (List.replicate j ' ' ++ r)), column + 1, line,
        false, anchors⟩ =
          some (.scalar none false (textOf (Text.chars t)),
            ⟨'\n' :: (List.replicate j ' ' ++ r), column', line', false,
            anchors⟩) :=
      quoted?_double
    rw [htext] at hquoted
    rw [hreread]
    exact reads_quoted (.inr rfl) hr hquoted
  | literal =>
    have hne : Text.chars t ≠ [] :=
      chars_ne_nil ht (ne_nil_of_style (by rw [hstyle]; decide))
    rw [styledChars, lineTail_literalChars hne]
    exact reads_literal ht hstyle hr hfloor hj

theorem reads_leaf
    {t : Tree} (hleaf : isLeaf t = true) (ht : t.Within .textual) {indent : Nat}
    (hr : startsToken r = true) (hj : j ≤ indent) :
    Reads Node.Denotes (datum? t) r j anchors
      (blockNode (fuel + 3) (indent + 1) keys value
      ⟨leafChars (indent + 2) t ++ (List.replicate j ' ' ++ r), column, line,
      false, anchors⟩) := by
  have hfloor : j < indent + 1 := by omega
  have hempty : Reads Node.Denotes (some (.list [])) r j anchors
      (blockNode (fuel + 3) (indent + 1) keys value
      ⟨[' ', '[', ']', '\n'] ++ (List.replicate j ' ' ++ r), column, line,
      false, anchors⟩) :=
    reads_enclosed (n := .sequence []) (by simp) hr ⟨column + 3, line, rfl⟩
  cases t with
  | absent => exact hempty
  | bool b =>
    cases b with
    | true =>
      exact reads_plainText (t := "true") (by decide) (by decide)
        (plainText_of_isWordByte (List.all_eq_true.1 (by decide))) hr
        hfloor
    | false =>
      exact reads_plainText (t := "false") (by decide) (by decide)
        (plainText_of_isWordByte (List.all_eq_true.1 (by decide))) hr
        hfloor
  | int m =>
    rw [datum?, leafChars, leaf, List.cons_append, List.append_assoc]
    exact reads_plainText (isWellFormed_ofInt m) (chars_ofInt_ne_nil m)
      (plainText_ofInt m) hr hfloor
  | text t =>
    rw [Tree.Within] at ht
    rw [datum?, leafChars, leaf, List.cons_append, List.append_assoc]
    exact reads_scalar ht hr (Nat.succ_pos indent) hfloor
  | list ts =>
    cases ts with
    | nil => exact hempty
    | cons t ts => cases hleaf
  | record ms =>
    cases ms with
    | nil =>
      exact reads_enclosed (n := .mapping []) (by simp) hr
        ⟨column + 3, line, rfl⟩
    | cons m ms => cases hleaf

end Yaml

end ProtocolCorpus
