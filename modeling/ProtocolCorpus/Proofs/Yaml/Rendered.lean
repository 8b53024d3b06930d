import ProtocolCorpus.Proofs.Json
import ProtocolCorpus.Proofs.Yaml.LiteralScalars
import ProtocolCorpus.Proofs.Yaml.Words

/-!
# The characters of a document

A document is written as bytes and read as characters. Here every part of a
document is given as the row of its characters, all of which may stand in a
text.
-/

namespace ProtocolCorpus

namespace Yaml

open Cursor

variable {cs : List Char} {n : Nat}

/-! ## Scalars -/

def styledChars (n : Nat) (cs : List Char) : Style → List Char
  | .plain => cs
  | .singleQuoted => '\x27' :: (indentChars n singleShown false cs ++ ['\x27'])
  | .doubleQuoted => '\x22' :: (cs.flatMap doubleShown ++ ['\x22'])
  | .literal => literalChars n cs

section Scalar

variable {t : Text} (ht : Text.isWellFormed t = true)
include ht

theorem scalars_eq_map_char : Text.scalars t = (Text.chars t).map .char :=
  Scalar.map_char_filterMap_char? ht

theorem singleQuoted_eq_ofChars (n : Nat) :
    singleQuoted n t =
    Text.ofChars (styledChars n (Text.chars t) .singleQuoted) := by
  have hshown : ∀ c, (fun s : Scalar => if s.code = 0x27 then ("''" : Text)
      else s.repaired) (.char c) =
      Text.ofChars (singleShown c) := by
    intro c
    rw [singleShown]
    by_cases hquote : c = '\x27'
    · subst hquote
      rfl
    · have hcode : (Scalar.char c).code ≠ 0x27 := fun h =>
        hquote (Char.toNat_inj.1 h)
      rw [if_neg hquote]
      exact (if_neg hcode).trans (List.append_nil _).symm
  rw [singleQuoted, scalars_eq_map_char ht, indentLines_map_char hshown,
    styledChars, List.append_assoc]
  exact congrArg (0x27 :: ·) (Text.ofChars_append _ ['\x27']).symm

theorem doubleQuoted_eq_ofChars (n : Nat) :
    doubleQuoted t =
    Text.ofChars (styledChars n (Text.chars t) .doubleQuoted) := by
  have hshown : (Text.scalars t).flatMap escape =
      Text.ofChars ((Text.chars t).flatMap doubleShown) := by
    rw [scalars_eq_map_char ht, List.flatMap_map, Text.ofChars,
      List.flatMap_assoc, List.flatMap_def, List.flatMap_def]
    congr 1
    exact List.map_congr_left fun c _ => (shows_doubleShown c).1
  rw [doubleQuoted, hshown, styledChars, List.append_assoc]
  exact congrArg (0x22 :: ·) (Text.ofChars_append _ ['\x22']).symm

theorem literalMarks_eq_ofChars
    {c : Char} {cs : List Char} (hcs : Text.chars t = c :: cs) :
    literalMarks t =
      Text.ofChars
      (marksOf (c == ' ' || isBreak c) (chompingOf (c :: cs))) := by
  have hcodes : (Text.scalars t).map Scalar.code =
      (c :: cs).map Char.toNat := by
    rw [← hcs]
    exact codes_eq_map_toNat ht
  have hblank : decide (c.toNat = 0x20) = (c == ' ') := by
    rw [Bool.eq_iff_iff, decide_eq_true_iff, beq_iff_eq]
    exact Char.toNat_inj (d := ' ')
  unfold literalMarks chompingOf
  rw [hcodes]
  dsimp only
  rw [← List.map_reverse]
  simp only [List.map_cons, List.head?_cons, Option.map_some, Option.getD_some,
    hblank, ← isBreak_eq_isBreakCode]
  generalize (c :: cs).reverse = rs
  generalize (c == ' ' || isBreak c) = given
  cases rs with
  | nil => cases given <;> rfl
  | cons a as =>
    cases as with
    | nil =>
      simp only [List.map_cons, List.map_nil, ← isBreak_eq_isBreakCode]
      cases isBreak a <;> cases given <;> rfl
    | cons b bs =>
      simp only [List.map_cons, ← isBreak_eq_isBreakCode]
      cases isBreak a <;> cases isBreak b <;> cases given <;> rfl

theorem literal_eq_ofChars
    (hne : t ≠ []) (n : Nat) :
    literal n t = Text.ofChars (literalChars n (Text.chars t)) := by
  have hshown : ∀ c, Scalar.repaired (.char c) =
    Text.ofChars (literalShown c) :=
    fun c => (List.append_nil _).symm
  cases hcs : Text.chars t with
  | nil => exact absurd (by rw [← Text.ofChars_chars ht, hcs]; rfl) hne
  | cons c cs =>
    have hopen :
        (((List.map Scalar.char (c :: cs)).head?).map fun s =>
        isBreakCode s.code).getD false =
        isBreak c := (isBreak_eq_isBreakCode c).symm
    unfold literal
    dsimp only
    rw [literalMarks_eq_ofChars ht hcs, scalars_eq_map_char ht, hcs,
      indentLines_map_char hshown, hopen, literalChars]
    cases hbreak : isBreak c with
    | true =>
      rw [indentChars_lineEnd hbreak, Bool.or_true, if_pos rfl, if_pos rfl,
        List.append_assoc, List.append_assoc]
      exact congrArg (0x7C :: ·) (Text.ofChars_append _ _).symm
    | false =>
      rw [Bool.or_false, if_neg Bool.noConfusion, if_neg Bool.noConfusion,
        List.append_assoc, List.append_assoc]
      exact congrArg (0x7C :: ·) (Text.ofChars_append _ ('\n' :: _)).symm

end Scalar

def scalarChars (n : Nat) (t : Text) : List Char :=
  styledChars n (Text.chars t) (style (readsAsText t) t)

theorem ne_nil_of_style
    {t : Text} (h : style (readsAsText t) t ≠ .doubleQuoted) : t ≠ [] := by
  rintro rfl
  revert h
  decide

theorem chars_ne_nil
    {t : Text} (ht : Text.isWellFormed t = true) (hne : t ≠ []) :
    Text.chars t ≠ [] := by
  intro hnil
  apply hne
  rw [← Text.ofChars_chars ht, hnil]
  rfl

theorem scalar_eq_ofChars
    {t : Text} (ht : Text.isWellFormed t = true) (n : Nat) :
    scalar n t = Text.ofChars (scalarChars n t) := by
  rw [scalar, if_pos ht, scalarChars]
  cases hstyle : style (readsAsText t) t with
  | plain => exact (Text.ofChars_chars ht).symm
  | singleQuoted => exact singleQuoted_eq_ofChars ht n
  | doubleQuoted => exact doubleQuoted_eq_ofChars ht n
  | literal =>
    exact literal_eq_ofChars ht (ne_nil_of_style (by rw [hstyle]; decide)) n

theorem endLine_eq_ofChars (hne : cs ≠ []) :
    endLine (Text.ofChars cs) = Text.ofChars (cs ++ lineTail cs) := by
  have hlast : ((Text.scalars (Text.ofChars cs)).getLast?).map Scalar.code =
      some (cs.getLast hne).toNat := by
    rw [Text.scalars_ofChars, List.getLast?_map,
      List.getLast?_eq_some_getLast hne]
    rfl
  rw [endLine, hlast, Text.ofChars_append, lineTail,
    List.getLast?_eq_some_getLast hne, Option.map_some, Option.getD_some,
    isBreak_eq_isBreakCode]
  dsimp only
  cases isBreakCode (cs.getLast hne).toNat with
  | true => exact (List.append_nil _).symm
  | false => rfl

/-! ## Characters that may stand in a text -/

/-- The text has these characters, and all of them may stand in a document. -/
structure Spells (t : Text) (cs : List Char) : Prop where
  text : t = Text.ofChars cs
  allowed : ∀ c ∈ cs, isAllowed c = true

theorem Spells.of_all {t : Text} (htext : t = Text.ofChars cs)
    (hcs : cs.all isAllowed = true) :
    Spells t cs where
  text := htext
  allowed := List.all_eq_true.1 hcs

theorem Spells.append {s t : Text} {ds : List Char} (hs : Spells s cs)
    (ht : Spells t ds) :
    Spells (s ++ t) (cs ++ ds) where
  text := by rw [hs.text, ht.text, Text.ofChars_append]
  allowed := by
    rw [List.forall_mem_append]
    exact ⟨hs.allowed, ht.allowed⟩

theorem isAllowed_of_isPrintable
    {c : Char} (hc : isPrintable c.toNat = true ∨ c = '\t') :
    isAllowed c = true := by
  rcases hc with hc | rfl
  · simp only [isPrintable, isAllowed, Bool.or_eq_true, Bool.and_eq_true,
      decide_eq_true_eq] at hc ⊢
    omega
  · rfl

theorem isAllowed_of_mem_indentChars {shown : Char → List Char}
    (hcs : ∀ c ∈ cs, isAllowed c = true)
    (hshown : ∀ c ∈ cs, ∀ d ∈ shown c, isAllowed d = true) (atStart : Bool) :
    ∀ d ∈ indentChars n shown atStart cs, isAllowed d = true := by
  induction cs generalizing atStart with
  | nil => simp [indentChars]
  | cons c cs ih =>
    obtain ⟨hc, hrest⟩ := List.forall_mem_cons.1 hcs
    obtain ⟨hshow, hshows⟩ := List.forall_mem_cons.1 hshown
    rw [indentChars]
    split
    · exact List.forall_mem_cons.2 ⟨hc, ih hrest hshows true⟩
    · have hblanks :
          ∀ d ∈ (if atStart = true then List.replicate n ' ' else []),
          isAllowed d = true := by
        intro d hd
        cases atStart with
        | false => cases hd
        | true =>
          rw [List.eq_of_mem_replicate hd]
          rfl
      rw [List.forall_mem_append, List.forall_mem_append]
      exact ⟨⟨hblanks, hshow⟩, ih hrest hshows false⟩

theorem isAllowed_of_mem_marksOf (given : Bool) (chomping : Chomping) :
    ∀ c ∈ marksOf given chomping, isAllowed c = true := by
  apply List.all_eq_true.1
  cases given <;> cases chomping <;> decide

theorem isAllowed_of_mem_literalChars (hcs : ∀ c ∈ cs, isAllowed c = true) :
    ∀ d ∈ literalChars n cs, isAllowed d = true := by
  have hshown : ∀ ds : List Char, (∀ c ∈ ds, isAllowed c = true) →
      ∀ d ∈ indentChars n literalShown true ds, isAllowed d = true := by
    intro ds hds
    apply isAllowed_of_mem_indentChars hds
    intro c hc d hd
    rw [List.mem_singleton.1 hd]
    exact hds c hc
  cases cs with
  | nil => simp [literalChars]
  | cons c cs =>
    obtain ⟨hc, hrest⟩ := List.forall_mem_cons.1 hcs
    rw [literalChars]
    split
    · rw [List.forall_mem_cons, List.forall_mem_append, List.forall_mem_cons]
      exact ⟨rfl, isAllowed_of_mem_marksOf _ _, hc, hshown cs hrest⟩
    · rw [List.forall_mem_cons, List.forall_mem_append, List.forall_mem_cons]
      exact ⟨rfl, isAllowed_of_mem_marksOf _ _, rfl, hshown (c :: cs) hcs⟩

theorem isAllowed_of_mem_doubleShown (c : Char) :
    ∀ d ∈ doubleShown c, isAllowed d = true := by
  have hshows := (shows_doubleShown c).2
  generalize doubleShown c = shown at hshows
  cases hshows with
  | itself hprintable _ _ _ =>
    intro d hd
    rw [List.mem_singleton.1 hd]
    exact isAllowed_of_isPrintable (.inl hprintable)
  | letter e hallowed _ _ _ =>
    exact List.forall_mem_cons.2 ⟨rfl, List.forall_mem_singleton.2 hallowed⟩
  | digits e ds hallowed _ _ _ _ => exact List.forall_mem_cons.2 ⟨rfl, hallowed⟩

/-- A text is spelled by the characters of its style. -/
theorem spells_scalar
    {t : Text} (ht : Text.isWellFormed t = true) (n : Nat) :
    Spells (scalar n t) (scalarChars n t) where
  text := scalar_eq_ofChars ht n
  allowed := by
    rw [scalarChars]
    cases hstyle : style (readsAsText t) t with
    | plain =>
      intro c hc
      exact isAllowed_of_isPrintable
        (.inl ((plainText_of_style ht hstyle).2.ordinary c hc).1)
    | singleQuoted =>
      have hprintable := (quotableText_of_style ht hstyle).printable
      have hallowed : ∀ c ∈ Text.chars t, isAllowed c = true :=
        fun c hc => isAllowed_of_isPrintable (.inl (hprintable c hc).1)
      have hshown : ∀ c ∈ Text.chars t, ∀ d ∈ singleShown c, isAllowed d =
          true := by
        intro c hc
        rw [singleShown]
        split
        · exact List.all_eq_true.1 (by decide)
        · exact List.forall_mem_singleton.2 (hallowed c hc)
      rw [styledChars, List.forall_mem_cons, List.forall_mem_append]
      exact ⟨rfl, isAllowed_of_mem_indentChars hallowed hshown false,
        List.forall_mem_singleton.2 rfl⟩
    | doubleQuoted =>
      rw [styledChars, List.forall_mem_cons, List.forall_mem_append]
      refine ⟨rfl, ?_, List.forall_mem_singleton.2 rfl⟩
      intro d hd
      obtain ⟨c, -, hd⟩ := List.mem_flatMap.1 hd
      exact isAllowed_of_mem_doubleShown c d hd
    | literal =>
      apply isAllowed_of_mem_literalChars
      intro c hc
      exact isAllowed_of_isPrintable
        (isPrintable_or_eq_tab_of_style ht hstyle hc)

/-! ## Trees -/

/-- A tree that is written on one line with its key, or as a block of lines. -/
def isLeaf : Tree → Bool
  | .list (_ :: _) => false
  | .record (_ :: _) => false
  | _ => true

/-- What holds of leaves and is handed on from parts holds of every regular tree
of well-formed texts. -/
theorem regular_induction {P : Tree → Prop}
    (hleaf : ∀ t, isLeaf t = true → t.Within .textual → P t)
    (hlist : ∀ t ts, (∀ x ∈ t :: ts, P x) → P (.list (t :: ts)))
    (hrecord : ∀ m ms, ((m :: ms).map Prod.fst).Nodup →
      (∀ x ∈ m :: ms, isFieldName x.1 = true ∧ P x.2) → P (.record (m :: ms)))
      {t : Tree}
    (hregular : t.Regular n) (ht : t.Within .textual) :
    P t := by
  induction n generalizing t with
  | zero =>
    apply hleaf t ?_ ht
    cases t <;> first | rfl | exact hregular.elim
  | succ n ih =>
    cases t with
    | list ts =>
      cases ts with
      | nil => exact hleaf _ rfl ht
      | cons t ts =>
        rw [Tree.Within] at ht
        exact hlist t ts fun x hx => ih (hregular x hx) (ht.2 x hx)
    | record ms =>
      cases ms with
      | nil => exact hleaf _ rfl ht
      | cons m ms =>
        rw [Tree.Within] at ht
        refine hrecord m ms hregular.1 ?_
        intro x hx
        exact ⟨(hregular.2 x hx).1, ih (hregular.2 x hx).2 (ht.2 x hx).2⟩
    | _ => exact hleaf _ rfl ht

def leaf (n : Nat) : Tree → List Char
  | .absent => ['[', ']']
  | .bool b => if b then ['t', 'r', 'u', 'e'] else ['f', 'a', 'l', 's', 'e']
  | .int m => Text.chars (Text.ofInt m)
  | .text t => scalarChars n t
  | .list _ => ['[', ']']
  | .record _ => ['\x7b', '\x7d']

def leafChars (n : Nat) (t : Tree) : List Char :=
  ' ' :: (leaf n t ++ lineTail (leaf n t))

mutual

/-- What follows a key at an indentation. -/
def valueChars (indent : Nat) : Tree → List Char
  | .list (t :: ts) => '\n' :: itemsChars (indent + 2) (t :: ts)
  | .record (m :: ms) => '\n' :: membersChars (indent + 2) (m :: ms)
  | t => leafChars (indent + 2) t

/-- What follows the dash of an item at an indentation. -/
def itemChars (indent : Nat) : Tree → List Char
  | .list (t :: ts) =>
  ' ' :: '-' :: (itemChars (indent + 2) t ++ itemsChars (indent + 2) ts)
  | .record (m :: ms) =>
    ' ' :: (Text.chars m.1 ++ ':' ::
      (valueChars (indent + 2) m.2 ++ membersChars (indent + 2) ms))
  | t => leafChars (indent + 2) t

def itemsChars (indent : Nat) : List Tree → List Char
  | [] => []
  | t :: ts =>
  List.replicate indent ' ' ++ '-' ::
    (itemChars indent t ++ itemsChars indent ts)

def membersChars (indent : Nat) : List (Text × Tree) → List Char
  | [] => []
  | m :: ms =>
    List.replicate indent ' ' ++
      (Text.chars m.1 ++ ':' ::
      (valueChars indent m.2 ++ membersChars indent ms))

end

theorem spells_blanks (n : Nat) :
    Spells (Text.blanks n) (List.replicate n ' ') where
  text := (ofChars_replicate_blank n).symm
  allowed c hc := by
    rw [List.eq_of_mem_replicate hc]
    rfl

theorem spells_fieldName
    {k : Text} (hk : isFieldName k = true) (n : Nat) :
    Spells (scalar n k) (Text.chars k) := by
  have hspells := spells_scalar (isWellFormed_of_isFieldName hk) n
  rwa [scalarChars, style_of_isFieldName hk] at hspells

theorem scalarChars_ne_nil
    {t : Text} (ht : Text.isWellFormed t = true) (n : Nat) :
    scalarChars n t ≠ [] := by
  rw [scalarChars]
  cases hstyle : style (readsAsText t) t with
  | plain => exact chars_ne_nil ht (ne_nil_of_style (by rw [hstyle]; decide))
  | singleQuoted => exact List.cons_ne_nil _ _
  | doubleQuoted => exact List.cons_ne_nil _ _
  | literal =>
    obtain ⟨c, cs, hcs⟩ := List.exists_cons_of_ne_nil
      (chars_ne_nil ht (ne_nil_of_style (by rw [hstyle]; decide)))
    rw [styledChars, hcs, literalChars]
    split <;> exact List.cons_ne_nil _ _

theorem lineTail_plain (hne : cs ≠ []) (hcs : PlainText none cs) :
    lineTail cs = ['\n'] := by
  apply lineTail_line hne
  intro c hc
  rw [isBreak_eq_isBreakCode]
  exact (hcs.ordinary c hc).2

theorem isWellFormed_ofInt (m : Int) :
    Text.isWellFormed (Text.ofInt m) = true := by
  have hdigits : ∀ n, ∀ b ∈ Text.ofNat n, b.toNat < 0x80 := by
    intro n b hb
    have hdigit := Text.isDigit_of_mem_ofNat hb
    simp only [Text.isDigit, Bool.and_eq_true, decide_eq_true_eq,
      UInt8.le_iff_toNat_le, UInt8.reduceToNat] at hdigit
    omega
  apply Text.isWellFormed_of_ascii
  cases m with
  | ofNat n => exact hdigits n
  | negSucc n => exact List.forall_mem_cons.2 ⟨by decide, hdigits (n + 1)⟩

theorem chars_ofInt_ne_nil (m : Int) :
    Text.chars (Text.ofInt m) ≠ [] := by
  apply chars_ne_nil (isWellFormed_ofInt m)
  cases m with
  | ofNat n => exact Text.ofNatBase_ne_nil 10 n
  | negSucc n => exact List.cons_ne_nil _ _

theorem spells_ofInt (m : Int) :
    Spells (Text.ofInt m) (Text.chars (Text.ofInt m)) where
  text := (Text.ofChars_chars (isWellFormed_ofInt m)).symm
  allowed c hc :=
    isAllowed_of_isPrintable (.inl ((plainText_ofInt m).ordinary c hc).1)

theorem spells_endLine {t : Text} (ht : Spells t cs) (hne : cs ≠ []) :
    Spells (endLine (" " ++ t)) (' ' :: (cs ++ lineTail cs)) where
  text := by
    have htext : (" " ++ t : Text) = Text.ofChars (' ' :: cs) := by
      rw [ht.text]
      rfl
    have htail : lineTail ([' '] ++ cs) = lineTail cs := lineTail_append hne
    rw [List.singleton_append] at htail
    rw [htext, endLine_eq_ofChars (List.cons_ne_nil ' ' cs), htail]
    rfl
  allowed := by
    rw [List.forall_mem_cons, List.forall_mem_append]
    refine ⟨rfl, ht.allowed, ?_⟩
    apply List.all_eq_true.1
    rw [lineTail]
    split <;> decide

/-- A leaf is written the same behind a key and behind a dash. -/
theorem renderItem_of_isLeaf
    {t : Tree} (hleaf : isLeaf t = true) (indent : Nat) :
    renderItem indent t = renderValue indent t := by
  cases t with
  | bool b => cases b <;> rw [renderValue, renderItem]
  | list ts =>
    cases ts with
    | nil => rw [renderValue, renderItem]
    | cons t ts => cases hleaf
  | record ms =>
    cases ms with
    | nil => rw [renderValue, renderItem]
    | cons m ms => cases hleaf
  | _ => rw [renderValue, renderItem]

theorem spells_leaf
    {t : Tree} (hleaf : isLeaf t = true) (ht : t.Within .textual)
    (indent : Nat) :
    Spells (renderValue indent t) (leafChars (indent + 2) t) := by
  have hlist : Spells " []\n" [' ', '[', ']', '\n'] := .of_all rfl (by decide)
  cases t with
  | absent =>
    rw [renderValue]
    exact hlist
  | bool b =>
    have htrue : Spells " true\n" [' ', 't', 'r', 'u', 'e', '\n'] :=
      .of_all rfl (by decide)
    have hfalse : Spells " false\n" [' ', 'f', 'a', 'l', 's', 'e', '\n'] :=
      .of_all rfl (by decide)
    cases b with
    | true =>
      rw [renderValue]
      exact htrue
    | false =>
      rw [renderValue]
      exact hfalse
  | int m =>
    have hblank : Spells " " [' '] := .of_all rfl (by decide)
    have hend : Spells "\n" ['\n'] := .of_all rfl (by decide)
    rw [renderValue, leafChars, leaf,
      lineTail_plain (chars_ofInt_ne_nil m) (plainText_ofInt m),
      List.append_assoc]
    exact hblank.append ((spells_ofInt m).append hend)
  | text t =>
    rw [Tree.Within] at ht
    rw [renderValue]
    exact spells_endLine (spells_scalar ht (indent + 2))
      (scalarChars_ne_nil ht (indent + 2))
  | list ts =>
    cases ts with
    | nil =>
      rw [renderValue]
      exact hlist
    | cons t ts => cases hleaf
  | record ms =>
    have hrecord : Spells " \x7b\x7d\n" [' ', '\x7b', '\x7d', '\n'] :=
      .of_all rfl (by decide)
    cases ms with
    | nil =>
      rw [renderValue]
      exact hrecord
    | cons m ms => cases hleaf

theorem valueChars_of_isLeaf
    {t : Tree} (hleaf : isLeaf t = true) (indent : Nat) :
    valueChars indent t = leafChars (indent + 2) t := by
  unfold valueChars
  split
  · cases hleaf
  · cases hleaf
  · rfl

theorem itemChars_of_isLeaf
    {t : Tree} (hleaf : isLeaf t = true) (indent : Nat) :
    itemChars indent t = leafChars (indent + 2) t := by
  unfold itemChars
  split
  · cases hleaf
  · cases hleaf
  · rfl

theorem spells_renderItems
    {ts : List Tree}
    (hts : ∀ t ∈ ts, ∀ indent, Spells (renderItem indent t)
      (itemChars indent t)) (indent : Nat) :
    Spells (renderItems indent ts) (itemsChars indent ts) := by
  induction ts with
  | nil =>
    rw [renderItems, itemsChars]
    exact ⟨rfl, by simp⟩
  | cons t ts ih =>
    have hdash : Spells "-" ['-'] := .of_all rfl (by decide)
    obtain ⟨hitem, hitems⟩ := List.forall_mem_cons.1 hts
    rw [renderItems, itemsChars, List.append_assoc, List.append_assoc]
    exact (spells_blanks indent).append
      (hdash.append ((hitem indent).append (ih hitems)))

theorem spells_renderMembers
    {ms : List (Text × Tree)} (hms : ∀ m ∈ ms, isFieldName m.1 = true ∧
      ∀ indent, Spells (renderValue indent m.2) (valueChars indent m.2))
      (indent : Nat) :
    Spells (renderMembers indent ms) (membersChars indent ms) := by
  induction ms with
  | nil =>
    rw [renderMembers, membersChars]
    exact ⟨rfl, by simp⟩
  | cons m ms ih =>
    have hcolon : Spells ":" [':'] := .of_all rfl (by decide)
    obtain ⟨⟨hkey, hvalue⟩, hmembers⟩ := List.forall_mem_cons.1 hms
    rw [renderMembers, membersChars, List.append_assoc, List.append_assoc,
      List.append_assoc]
    exact (spells_blanks indent).append
      ((spells_fieldName hkey indent).append (hcolon.append
      ((hvalue indent).append (ih hmembers))))

theorem spells_list
    {t : Tree} {ts : List Tree}
    (hts : ∀ x ∈ t :: ts, ∀ indent, Spells (renderItem indent x)
      (itemChars indent x)) (indent : Nat) :
    Spells (renderValue indent (.list (t :: ts)))
      (valueChars indent (.list (t :: ts))) ∧
      Spells (renderItem indent (.list (t :: ts)))
      (itemChars indent (.list (t :: ts))) := by
  have hline : Spells "\n" ['\n'] := .of_all rfl (by decide)
  have hdash : Spells " -" [' ', '-'] := .of_all rfl (by decide)
  obtain ⟨hitem, hitems⟩ := List.forall_mem_cons.1 hts
  constructor
  · rw [renderValue, valueChars]
    exact hline.append (spells_renderItems hts (indent + 2))
  · rw [renderItem, itemChars, List.append_assoc]
    exact hdash.append
      ((hitem (indent + 2)).append (spells_renderItems hitems (indent + 2)))

theorem spells_record
    {m : Text × Tree} {ms : List (Text × Tree)}
    (hms : ∀ x ∈ m :: ms, isFieldName x.1 = true ∧
      ∀ indent, Spells (renderValue indent x.2) (valueChars indent x.2))
      (indent : Nat) :
    Spells (renderValue indent (.record (m :: ms)))
      (valueChars indent (.record (m :: ms))) ∧
      Spells (renderItem indent (.record (m :: ms)))
      (itemChars indent (.record (m :: ms))) := by
  have hline : Spells "\n" ['\n'] := .of_all rfl (by decide)
  have hblank : Spells " " [' '] := .of_all rfl (by decide)
  have hcolon : Spells ":" [':'] := .of_all rfl (by decide)
  obtain ⟨⟨hkey, hvalue⟩, hmembers⟩ := List.forall_mem_cons.1 hms
  constructor
  · rw [renderValue, valueChars]
    exact hline.append (spells_renderMembers hms (indent + 2))
  · rw [renderItem, itemChars, List.append_assoc, List.append_assoc,
      List.append_assoc]
    exact hblank.append
      ((spells_fieldName hkey (indent + 2)).append (hcolon.append
      ((hvalue (indent + 2)).append
      (spells_renderMembers hmembers (indent + 2)))))

/-- A regular tree of well-formed texts is spelled behind a key and behind a
dash. -/
theorem spells_of_regular {t : Tree} (hregular : t.Regular n)
    (ht : t.Within .textual) :
    ∀ indent, Spells (renderValue indent t) (valueChars indent t) ∧
      Spells (renderItem indent t) (itemChars indent t) := by
  apply regular_induction ?_ ?_ ?_ hregular ht
  · intro t hleaf ht indent
    rw [valueChars_of_isLeaf hleaf, itemChars_of_isLeaf hleaf,
      renderItem_of_isLeaf hleaf]
    exact ⟨spells_leaf hleaf ht indent, spells_leaf hleaf ht indent⟩
  · intro t ts hts
    exact spells_list fun x hx indent => (hts x hx indent).2
  · intro m ms _ hms
    exact spells_record fun x hx =>
      ⟨(hms x hx).1, fun indent => ((hms x hx).2 indent).1⟩

end Yaml

end ProtocolCorpus
