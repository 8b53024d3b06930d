import Mathlib.Algebra.GroupWithZero.Nat
import ProtocolCorpus.Text.Basic

/-!
# Taking texts apart

What the parts of a text around a separator are, and when a text starts or ends
with another one, said by putting the parts together again. Lines are the pieces
between line feeds.
-/

namespace ProtocolCorpus

namespace Text

variable {sep : UInt8} {t : Text}

theorem cut_eq_none_iff :
    cut sep t = none ↔ sep ∉ t := by
  induction t with
  | nil => simp [cut]
  | cons b t ih =>
    rw [cut, List.mem_cons, not_or]
    by_cases hb : b = sep
    · simp [hb]
    · simp [hb, Ne.symm hb, ih]

theorem cut_eq_some_iff {a b : Text} :
    cut sep t = some (a, b) ↔ t = a ++ sep :: b ∧ sep ∉ a := by
  induction t generalizing a with
  | nil => simp [cut]
  | cons c t ih =>
    rw [cut]
    by_cases hc : c = sep
    · cases a with
      | nil => simp [hc, eq_comm]
      | cons c' a =>
        simp only [hc, if_true, Option.some.injEq, Prod.mk.injEq, List.nil_eq,
          List.cons_ne_nil, false_and, List.cons_append, List.cons.injEq,
          List.mem_cons, not_or, false_iff]
        rintro ⟨⟨rfl, -⟩, hne, -⟩
        exact hne rfl
    · cases a with
      | nil => simp [hc]
      | cons c' a =>
        have hrest := ih (a := a)
        simp only [hc, if_false, Option.map_eq_some_iff, Prod.mk.injEq,
          List.cons.injEq, Prod.exists, List.cons_append, List.mem_cons, not_or]
        constructor
        · rintro ⟨x, y, hxy, ⟨rfl, rfl⟩, rfl⟩
          obtain ⟨rfl, hx⟩ := hrest.1 hxy
          exact ⟨⟨rfl, rfl⟩, Ne.symm hc, hx⟩
        · rintro ⟨⟨rfl, rfl⟩, -, ha⟩
          exact ⟨a, b, hrest.2 ⟨rfl, ha⟩, ⟨rfl, rfl⟩, rfl⟩

theorem cutLast_eq_none_iff :
    cutLast sep t = none ↔ sep ∉ t := by
  rw [cutLast, Option.map_eq_none_iff, cut_eq_none_iff, List.mem_reverse]

theorem cutLast_eq_some_iff {a b : Text} :
    cutLast sep t = some (a, b) ↔ t = a ++ sep :: b ∧ sep ∉ b := by
  rw [cutLast, Option.map_eq_some_iff]
  constructor
  · rintro ⟨⟨x, y⟩, hcut, heq⟩
    obtain ⟨rfl, rfl⟩ := Prod.mk.inj heq
    obtain ⟨ht, hx⟩ := cut_eq_some_iff.1 hcut
    have hback := congrArg List.reverse ht
    simp only [List.reverse_reverse, List.reverse_append, List.reverse_cons,
      List.append_assoc, List.singleton_append] at hback
    exact ⟨hback, by rwa [List.mem_reverse]⟩
  · rintro ⟨rfl, hb⟩
    refine ⟨(b.reverse, a.reverse),
      cut_eq_some_iff.2 ⟨?_, by rwa [List.mem_reverse]⟩, ?_⟩
    · simp
    · simp

theorem stripFront?_eq_some_iff {p rest : Text} :
    stripFront? p t = some rest ↔ t = p ++ rest := by
  induction p generalizing t with
  | nil => simp [stripFront?]
  | cons a p ih =>
    cases t with
    | nil => simp [stripFront?]
    | cons b t =>
      rw [stripFront?, List.cons_append, List.cons.injEq]
      by_cases hab : a = b
      · simp [hab, ih]
      · simp [hab, Ne.symm hab]

theorem stripFront?_append (p rest : Text) :
    stripFront? p (p ++ rest) = some rest :=
  stripFront?_eq_some_iff.2 rfl

theorem stripBack?_append (front p : Text) :
    stripBack? p (front ++ p) = some front := by
  rw [stripBack?, List.reverse_append, stripFront?_append, Option.map_some,
    List.reverse_reverse]

theorem string_append (s : String) (t : Text) :
    @HAppend.hAppend String Text Text _ s t = ofString s ++ t :=
  rfl

theorem append_string (t : Text) (s : String) :
    @HAppend.hAppend Text String Text _ t s = t ++ ofString s :=
  rfl

theorem isDigit_of_mem_ofNat {b : UInt8} {n : Nat} (hb : b ∈ ofNat n) :
    isDigit b = true := by
  obtain ⟨c, hc, rfl⟩ := List.mem_map.1 hb
  have hdigit : c.isDigit = true :=
    Nat.isDigit_of_mem_toDigits (by decide) (by decide) hc
  simp only [Char.isDigit, Bool.and_eq_true, decide_eq_true_iff, ge_iff_le,
    UInt32.le_iff_toNat_le] at hdigit
  have hlow : 48 ≤ c.val.toNat := hdigit.1
  have hhigh : c.val.toNat ≤ 57 := hdigit.2
  have hbyte : c.toUInt8.toNat = c.val.toNat := by
    rw [Char.toUInt8, UInt32.toNat_toUInt8]
    omega
  simp only [isDigit, Bool.and_eq_true, decide_eq_true_iff,
    UInt8.le_iff_toNat_le, hbyte]
  exact ⟨hlow, hhigh⟩

/-! ## Pieces -/

theorem splitOn_ne_nil (sep : UInt8) (t : Text) :
    splitOn sep t ≠ [] := by
  cases t with
  | nil => simp [splitOn]
  | cons b t =>
    rw [splitOn]
    split
    · simp
    · split
      · simp
      · simp

theorem splitOn_append (sep : UInt8) (s t : Text) :
    splitOn sep (s ++ sep :: t) = splitOn sep s ++ splitOn sep t := by
  induction s with
  | nil =>
    obtain ⟨p, ps, hsplit⟩ := List.exists_cons_of_ne_nil (splitOn_ne_nil sep t)
    simp [splitOn, hsplit]
  | cons b s ih =>
    obtain ⟨p, ps, hsplit⟩ := List.exists_cons_of_ne_nil (splitOn_ne_nil sep s)
    rw [List.cons_append, splitOn, ih, splitOn, hsplit]
    by_cases hb : b = sep
    · simp [hb]
    · simp [hb]

theorem splitOn_eq_singleton
    {sep : UInt8} {t : Text} (h : sep ∉ t) :
    splitOn sep t = [t] := by
  induction t with
  | nil => rfl
  | cons b t ih =>
    rw [List.mem_cons, not_or] at h
    rw [splitOn, ih h.2]
    exact if_neg (Ne.symm h.1)

/-- The pieces that are joined can be read off again. -/
theorem splitOn_join_singleton
    {sep : UInt8} {pieces : List Text} (hne : pieces ≠ [])
    (h : ∀ p ∈ pieces, sep ∉ p) :
    splitOn sep (join [sep] pieces) = pieces := by
  induction pieces with
  | nil => exact absurd rfl hne
  | cons p ps ih =>
    have hp := splitOn_eq_singleton (h p List.mem_cons_self)
    cases ps with
    | nil => exact hp
    | cons q qs =>
      rw [join, List.append_assoc, List.singleton_append, splitOn_append, hp,
        ih (List.cons_ne_nil q qs) fun s hs => h s (List.mem_cons_of_mem p hs)]
      rfl

theorem join_singleton_cons_cons (sep : UInt8) (s q : Text) (qs : List Text) :
    join [sep] (s :: q :: qs) = s ++ sep :: join [sep] (q :: qs) := by
  rw [join, List.append_assoc, List.singleton_append]

/-- The pieces of a text are joined to the text. -/
theorem join_splitOn_singleton (sep : UInt8) (t : Text) :
    join [sep] (splitOn sep t) = t := by
  induction t with
  | nil => rfl
  | cons b t ih =>
    obtain ⟨p, ps, hsplit⟩ := List.exists_cons_of_ne_nil (splitOn_ne_nil sep t)
    rw [hsplit] at ih
    rw [splitOn, hsplit]
    dsimp only
    split
    next hb => rw [join_singleton_cons_cons, ih, hb, List.nil_append]
    next =>
      cases ps with
      | nil => exact congrArg (b :: ·) ih
      | cons q qs =>
        rw [join_singleton_cons_cons] at ih ⊢
        exact congrArg (b :: ·) ih

/-- A piece between separators holds bytes of the text, and no separator. -/
theorem mem_and_ne_of_mem_splitOn
    {sep b : UInt8} {t piece : Text}
    (hpiece : piece ∈ splitOn sep t) (hb : b ∈ piece) :
    b ∈ t ∧ b ≠ sep := by
  induction t generalizing piece with
  | nil =>
    rw [splitOn, List.mem_singleton] at hpiece
    rw [hpiece] at hb
    cases hb
  | cons a t ih =>
    rw [splitOn] at hpiece
    split at hpiece
    next =>
      rw [List.mem_singleton] at hpiece
      rw [hpiece] at hb
      cases hb
    next p ps hsplit =>
      rw [hsplit] at ih
      split at hpiece
      next =>
        rcases List.mem_cons.1 hpiece with rfl | hpiece
        · cases hb
        · obtain ⟨hmem, hne⟩ := ih hpiece hb
          exact ⟨List.mem_cons_of_mem a hmem, hne⟩
      next hsep =>
        rcases List.mem_cons.1 hpiece with rfl | hpiece
        · rcases List.mem_cons.1 hb with rfl | hb
          · exact ⟨List.mem_cons_self, hsep⟩
          · obtain ⟨hmem, hne⟩ := ih List.mem_cons_self hb
            exact ⟨List.mem_cons_of_mem a hmem, hne⟩
        · obtain ⟨hmem, hne⟩ := ih (List.mem_cons_of_mem p hpiece) hb
          exact ⟨List.mem_cons_of_mem a hmem, hne⟩

theorem head?_join (sep : Text) {w : Text} (hw : w ≠ []) (ws : List Text) :
    (join sep (w :: ws)).head? = w.head? := by
  obtain ⟨b, rest, rfl⟩ := List.exists_cons_of_ne_nil hw
  cases ws with
  | nil => rfl
  | cons v vs => rfl

theorem join_concat {sep : Text} {ws : List Text} (hws : ws ≠ []) (v : Text) :
    join sep (ws ++ [v]) = join sep ws ++ sep ++ v := by
  induction ws with
  | nil => exact absurd rfl hws
  | cons w ws ih =>
    cases ws with
    | nil => rfl
    | cons u us =>
      have hne : u :: us ≠ [] := List.cons_ne_nil u us
      simp only [List.cons_append, join] at ih ⊢
      rw [ih hne]
      simp only [List.append_assoc]

/-! ## Lines -/

def breaks (t : Text) : Nat :=
  t.count 0x0A

/-- The lines of a text, without the line feeds between them. -/
def lines (t : Text) : List Text :=
  splitOn 0x0A t

theorem length_splitOn (sep : UInt8) (t : Text) :
    (splitOn sep t).length = t.count sep + 1 := by
  induction t with
  | nil => rfl
  | cons b t ih =>
    rw [splitOn, List.count_cons]
    cases hsplit : splitOn sep t with
    | nil =>
      rw [hsplit] at ih
      cases ih
    | cons p ps =>
      rw [hsplit] at ih
      by_cases hb : b = sep
      · simpa [hb] using ih
      · simpa [hb] using ih

theorem length_lines (t : Text) :
    t.lines.length = t.breaks + 1 :=
  length_splitOn 0x0A t

@[simp]
theorem breaks_append (s t : Text) :
    (s ++ t).breaks = s.breaks + t.breaks :=
  List.count_append

theorem breaks_eq_zero_iff {t : Text} :
    t.breaks = 0 ↔ 0x0A ∉ t :=
  List.count_eq_zero

theorem breaks_flatMap {α : Type} (f : α → Text) (as : List α) :
    breaks (as.flatMap f) = (as.map fun a => (f a).breaks).sum := by
  rw [breaks, List.count_flatMap]
  rfl

theorem breaks_join {ts : List Text} (h : ts ≠ []) :
    (join "\n" ts).breaks + 1 = (ts.map fun t => t.breaks + 1).sum := by
  induction ts with
  | nil => exact absurd rfl h
  | cons t ts ih =>
    cases ts with
    | nil => simp [join]
    | cons u us =>
      have hfeed : (ofString "\n").breaks = 1 := by decide
      rw [join, List.map_cons, List.sum_cons, ← ih (List.cons_ne_nil u us),
        breaks_append, breaks_append, hfeed]
      omega

end Text

end ProtocolCorpus
