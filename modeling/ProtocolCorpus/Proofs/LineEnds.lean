import Mathlib.Data.List.Infix
import ProtocolCorpus.Proofs.Parts
import ProtocolCorpus.Source.File

/-!
# Line ends

A carriage return goes away if a line feed follows it. So a line that ends in a
line feed loses one return at its end, if it has one there, and the last line,
which has no line feed, is kept. There are as many lines as before, and a text
without a return before a line feed is kept as it is.
-/

namespace ProtocolCorpus

namespace Text

/-! ## Bytes -/

theorem foldReturns_cons
    {b : UInt8} {t : Text} (h : b = 0x0D → t.head? ≠ some 0x0A) :
    foldReturns (b :: t) = b :: foldReturns t := by
  rw [foldReturns]
  rintro u rfl rfl
  exact h rfl rfl

theorem foldReturns_sublist (t : Text) :
    (foldReturns t).Sublist t := by
  fun_induction foldReturns t with
  | case1 t ih => exact (ih.cons_cons 0x0A).cons 0x0D
  | case2 b t _ ih => exact ih.cons_cons b
  | case3 => exact List.Sublist.slnil

theorem filter_foldReturns (t : Text) :
    (foldReturns t).filter (· != 0x0D) = t.filter (· != 0x0D) := by
  fun_induction foldReturns t with
  | case1 t ih => simpa using ih
  | case2 b t _ ih => rw [List.filter_cons, List.filter_cons, ih]
  | case3 => rfl

theorem foldReturns_eq_self_iff {t : Text} :
    foldReturns t = t ↔ ¬[0x0D, 0x0A] <:+: t := by
  fun_induction foldReturns t with
  | case1 t ih => exact ⟨fun h => by simp at h, fun h => absurd ⟨[], t, rfl⟩ h⟩
  | case2 b t hpair ih =>
    have hfront : ¬[0x0D, 0x0A] <+: b :: t := by
      rintro ⟨u, hu⟩
      obtain ⟨rfl, rfl⟩ := List.cons.inj hu
      exact hpair u rfl rfl
    rw [List.infix_cons_iff, or_iff_right hfront, ← ih, List.cons.injEq,
      and_iff_right rfl]
  | case3 => simp

/-! ## Lines -/

/-- The line without one carriage return at its end, if there is one. -/
def withoutReturn (line : Text) : Text :=
  if line.getLast? = some 0x0D then line.dropLast else line

theorem foldReturns_append_feed
    {line : Text} (hline : 0x0A ∉ line) (rest : Text) :
    foldReturns (line ++ 0x0A :: rest) = line.withoutReturn ++ 0x0A ::
      foldReturns rest := by
  induction line with
  | nil => exact foldReturns_cons fun h => absurd h (by decide)
  | cons b line ih =>
    rw [List.mem_cons, not_or] at hline
    cases line with
    | nil =>
      by_cases hb : b = 0x0D
      · rw [hb]
        rfl
      · have hkept : withoutReturn [b] = [b] := if_neg (by simpa using hb)
        rw [List.cons_append, foldReturns_cons fun h => absurd h hb, ih hline.2,
          hkept]
        rfl
    | cons c line =>
      have hnext : ((c :: line) ++ 0x0A :: rest).head? ≠ some 0x0A := by
        rw [List.cons_append, List.head?_cons, Ne, Option.some_inj]
        exact fun hc => hline.2 (hc ▸ List.mem_cons_self)
      have hkept : withoutReturn (b :: c :: line) =
          b :: withoutReturn (c :: line) := by
        rw [withoutReturn, withoutReturn, List.getLast?_cons_cons,
          List.dropLast_cons_cons]
        split <;> rfl
      rw [List.cons_append, foldReturns_cons fun _ => hnext, ih hline.2, hkept,
        List.cons_append]

/-- All lines but the last one, which has no line feed behind it, lose a return
at their ends. -/
def unifyLines (ls : List Text) : List Text :=
  ls.dropLast.map withoutReturn ++ ls.getLast?.toList

theorem foldReturns_join
    {ls : List Text} (hne : ls ≠ []) (hls : ∀ l ∈ ls, 0x0A ∉ l) :
    foldReturns (join [0x0A] ls) = join [0x0A] (unifyLines ls) := by
  induction ls with
  | nil => exact absurd rfl hne
  | cons l ls ih =>
    obtain ⟨hl, hls⟩ := List.forall_mem_cons.1 hls
    cases ls with
    | nil => exact foldReturns_eq_self_iff.2 fun h => hl (h.mem (by simp))
    | cons m ls =>
      have hrest := ih (List.cons_ne_nil m ls) hls
      have hunify : unifyLines (l :: m :: ls) = l.withoutReturn :: unifyLines
        (m :: ls) := rfl
      obtain ⟨n, ns, hns⟩ : ∃ n ns, unifyLines (m :: ls) = n :: ns :=
        List.exists_cons_of_ne_nil (by simp [unifyLines])
      rw [join_singleton_cons_cons, foldReturns_append_feed hl, hrest, hunify,
        hns, join_singleton_cons_cons]

theorem lines_foldReturns (t : Text) :
    (foldReturns t).lines = unifyLines t.lines := by
  have hfeed : ∀ l ∈ t.lines, 0x0A ∉ l := fun l hl hmem =>
    (mem_and_ne_of_mem_splitOn hl hmem).2 rfl
  have hne : t.lines ≠ [] := splitOn_ne_nil 0x0A t
  have hunified : ∀ l ∈ unifyLines t.lines, 0x0A ∉ l := by
    intro l hl
    rcases List.mem_append.1 hl with hl | hl
    · obtain ⟨k, hk, rfl⟩ := List.mem_map.1 hl
      rw [withoutReturn]
      split
      · exact fun hmem =>
          hfeed k (List.mem_of_mem_dropLast hk) (List.mem_of_mem_dropLast hmem)
      · exact hfeed k (List.mem_of_mem_dropLast hk)
    · exact hfeed l (List.mem_of_getLast? (Option.mem_toList.1 hl))
  calc
    (foldReturns t).lines = (foldReturns (join [0x0A] t.lines)).lines := by
      rw [lines, lines, lines, join_splitOn_singleton]
    _ = (join [0x0A] (unifyLines t.lines)).lines := by
      rw [foldReturns_join hne hfeed]
    _ = unifyLines t.lines :=
      splitOn_join_singleton (by simp [unifyLines, hne]) hunified

end Text

namespace Source

/-- What becomes of a text when its line ends are unified, and whether it is
said that it changed. -/
structure EndsUnified (t : Text) (r : Text × Bool) : Prop where
  breaks_eq : r.1.breaks = t.breaks
  lines_eq : r.1.lines = t.lines.dropLast.map Text.withoutReturn ++
    t.lines.getLast?.toList
  sublist : r.1.Sublist t
  /-- Only returns are lost. -/
  filter_eq : r.1.filter (· != 0x0D) = t.filter (· != 0x0D)
  flag_iff : r.2 = true ↔ [0x0D, 0x0A] <:+: t
  unchanged : ¬[0x0D, 0x0A] <:+: t → r.1 = t

/-- Line ends are unified line by line, and nothing else happens to a text. -/
theorem endsUnified_dropReturns (t : Text) :
    EndsUnified t (dropReturns t) := by
  have hsublist := Text.foldReturns_sublist t
  constructor
  case breaks_eq =>
    have hcount := congrArg List.length (Text.lines_foldReturns t)
    have hpos : 0 < t.lines.length := by simp [Text.length_lines]
    rw [Text.unifyLines, List.length_append, List.length_map,
      List.length_dropLast, List.getLast?_eq_some_getLast
      (List.length_pos_iff.1 hpos), Option.toList_some, List.length_singleton,
      Nat.sub_add_cancel hpos, Text.length_lines, Text.length_lines] at hcount
    exact Nat.succ.inj hcount
  case lines_eq => exact Text.lines_foldReturns t
  case sublist => exact hsublist
  case filter_eq => exact Text.filter_foldReturns t
  case flag_iff =>
    rw [dropReturns, bne_iff_ne,
      ← not_iff_comm.1 Text.foldReturns_eq_self_iff.symm, not_iff_not]
    exact ⟨hsublist.eq_of_length, congrArg List.length⟩
  case unchanged => exact Text.foldReturns_eq_self_iff.2

example : dropReturns "a\r\r\n\n\r\r" =
    (Text.ofString "a\r\n\n\r\r", true) := by
  decide +kernel

end Source

end ProtocolCorpus
