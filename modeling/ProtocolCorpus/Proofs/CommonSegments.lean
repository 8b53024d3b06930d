import ProtocolCorpus.Proofs.Path

/-!
# The segments that names share

The first choice for the alias of a document is what the names of its interfaces
start with. Names are compared segment by segment, one after the other, and what
is left of two rows is the longest row that both start with. So what is left at
the end is the longest row that leads all names, in whichever order they come
and however often.
-/

namespace ProtocolCorpus

namespace Naming

variable {names names' row : List Text} {name : Text}

/-! ## Segments of a name -/

/-- The segments have no underscore, and the name is made of them with
underscores between neighbours. -/
structure IsCut (name : Text) (segments : List Text) : Prop where
  nonempty : segments ≠ []
  underscore_notMem : ∀ s ∈ segments, underscore ∉ s
  join_eq : Text.join "_" segments = name

/-- Every name can be cut in one way only. -/
theorem isCut_iff {segments : List Text} :
    IsCut name segments ↔ Text.splitOn underscore name = segments := by
  constructor
  · rintro ⟨hne, hfree, rfl⟩
    exact Text.splitOn_join_singleton hne hfree
  · rintro rfl
    refine ⟨Text.splitOn_ne_nil underscore name, ?_,
      Text.join_splitOn_singleton underscore name⟩
    intro s hs hmem
    exact (Text.mem_and_ne_of_mem_splitOn hs hmem).2 rfl

/-- The row holds the first segments of the name. -/
def Leads (row : List Text) (name : Text) : Prop :=
  ∃ rest, IsCut name (row ++ rest)

theorem leads_iff_isPrefix :
    Leads row name ↔ row <+: Text.splitOn underscore name := by
  constructor
  · rintro ⟨rest, hcut⟩
    exact ⟨rest, (isCut_iff.1 hcut).symm⟩
  · rintro ⟨rest, hrest⟩
    exact ⟨rest, isCut_iff.2 hrest.symm⟩

/-! ## What rows have in common -/

theorem isPrefix_commonStart_iff {as bs : List Text} :
    row <+: commonStart as bs ↔ row <+: as ∧ row <+: bs := by
  fun_induction commonStart as bs generalizing row with
  | case1 a as bs ih =>
    cases row with
    | nil => simp
    | cons s row =>
      rw [List.cons_prefix_cons, List.cons_prefix_cons, List.cons_prefix_cons,
        ih]
      tauto
  | case2 a as b bs hab =>
    cases row with
    | nil => simp
    | cons s row =>
      simp only [List.prefix_nil, List.cons_prefix_cons, reduceCtorEq,
        false_iff]
      rintro ⟨⟨rfl, -⟩, rfl, -⟩
      exact hab rfl
  | case3 as bs hnil =>
    cases as with
    | nil => simp +contextual
    | cons a as =>
      cases bs with
      | nil => simp +contextual
      | cons b bs => exact (hnil a as b bs rfl rfl).elim

/-- A row starts what is left after all comparisons exactly if it starts every
row that was compared. -/
theorem isPrefix_foldl_commonStart_iff {first : List Text}
    {rows : List (List Text)} :
    row <+: rows.foldl commonStart first ↔ row <+: first ∧
      ∀ r ∈ rows, row <+: r := by
  induction rows generalizing first with
  | nil => simp
  | cons r rows ih =>
    rw [List.foldl_cons, ih, isPrefix_commonStart_iff, List.forall_mem_cons,
      and_assoc]

/-- The row leads every name, and any other row that does is a start of it. -/
structure LongestShared (names row : List Text) : Prop where
  leads : ∀ name ∈ names, Leads row name
  longest : ∀ other, (∀ name ∈ names, Leads other name) → other <+: row

theorem longestShared_foldl (name : Text) (names : List Text) :
    LongestShared (name :: names)
      ((names.map (Text.splitOn underscore)).foldl commonStart
      (Text.splitOn underscore name)) := by
  have hiff : ∀ row, (∀ n ∈ name :: names, Leads row n) ↔
      row <+: (names.map (Text.splitOn underscore)).foldl commonStart
      (Text.splitOn underscore name) := by
    intro row
    rw [isPrefix_foldl_commonStart_iff, List.forall_mem_map,
      List.forall_mem_cons]
    simp only [leads_iff_isPrefix]
  exact ⟨(hiff _).2 (List.prefix_refl _), fun other hother =>
    (hiff other).1 hother⟩

theorem LongestShared.unique
    {other : List Text} (h : LongestShared names row)
    (hother : LongestShared names other) :
    row = other := by
  have hrow : row <+: other := hother.longest row h.leads
  exact hrow.eq_of_length
    (Nat.le_antisymm hrow.length_le (h.longest other hother.leads).length_le)

/-- Neither the order of the names nor their repetition matters. -/
theorem LongestShared.congr
    (h : LongestShared names row) (hmem : ∀ n, n ∈ names' ↔ n ∈ names) :
    LongestShared names' row := by
  refine ⟨fun n hn => h.leads n ((hmem n).1 hn), ?_⟩
  intro other hother
  exact h.longest other fun n hn => hother n ((hmem n).2 hn)

/-! ## Versions -/

/-- The segment is `v` with digits behind it, and with nothing else. -/
def TellsVersion (s : Text) : Prop :=
  ∃ digits : Text, digits ≠ [] ∧ (∀ d ∈ digits, 0x30 ≤ d ∧ d ≤ 0x39) ∧
    s = 0x76 :: digits

theorem isVersionSegment_iff {s : Text} :
    isVersionSegment s = true ↔ TellsVersion s := by
  constructor
  · intro h
    unfold isVersionSegment at h
    split at h
    next d ds =>
      exact ⟨d :: ds,
        List.cons_ne_nil d ds, by simpa [Text.isDigit] using h, rfl⟩
    next => cases h
  · rintro ⟨digits, hne, hdigits, rfl⟩
    obtain ⟨d, ds, rfl⟩ := List.exists_cons_of_ne_nil hne
    simpa [isVersionSegment, Text.isDigit] using hdigits

/-- What is kept of a row: all but the last segment if that tells a version and
others stand before it, and otherwise all of them. -/
structure KeptOf (row kept : List Text) : Prop where
  version : ∀ front v, row = front ++ [v] → front ≠ [] → TellsVersion v →
    kept = front
  otherwise : (∀ front v, row = front ++ [v] → front ≠ [] → ¬TellsVersion v) →
    kept = row

theorem dropVersion_concat (front : List Text) (v : Text) :
    dropVersion (front ++ [v]) = if front ≠ [] ∧ isVersionSegment v = true
    then front else front ++ [v] := by
  have hlength : 1 < (front ++ [v]).length ↔ front ≠ [] := by
    rw [List.length_append, List.length_singleton, ← List.length_pos_iff]
    omega
  simp only [dropVersion, hlength, List.getLast?_concat, Option.map_some,
    Option.getD_some, List.dropLast_concat, Bool.and_eq_true, decide_eq_true_eq]

theorem keptOf_dropVersion (row : List Text) :
    KeptOf row (dropVersion row) := by
  constructor
  case version =>
    rintro front v rfl hfront hv
    rw [dropVersion_concat, if_pos ⟨hfront, isVersionSegment_iff.2 hv⟩]
  case otherwise =>
    intro hnone
    rcases List.eq_nil_or_concat' row with rfl | ⟨front, v, rfl⟩
    · rfl
    · rw [dropVersion_concat, if_neg]
      rintro ⟨hfront, hv⟩
      exact hnone front v rfl hfront (isVersionSegment_iff.1 hv)

/-- What names have in common is the longest row of segments that leads all of
them, without a version at its end. It is the same for names that differ in
order and repetition only. -/
theorem commonSegments_eq_join_shared (hnames : names ≠ []) :
    (∃ row kept, LongestShared names row ∧ KeptOf row kept ∧
    commonSegments names = Text.join "_" kept) ∧
      ∀ names', (∀ n, n ∈ names' ↔ n ∈ names) → commonSegments names' =
      commonSegments names := by
  have hjoin : ∀ {names : List Text}, names ≠ [] →
      ∃ row, LongestShared names row ∧ commonSegments names =
      Text.join "_" (dropVersion row) := by
    intro names hne
    obtain ⟨name, rest, rfl⟩ := List.exists_cons_of_ne_nil hne
    exact ⟨_, longestShared_foldl name rest, rfl⟩
  obtain ⟨row, hrow, heq⟩ := hjoin hnames
  refine ⟨⟨row, dropVersion row, hrow, keptOf_dropVersion row, heq⟩, ?_⟩
  intro names' hmem
  have hnames' : names' ≠ [] := by
    obtain ⟨n, hn⟩ := List.exists_mem_of_ne_nil names hnames
    exact List.ne_nil_of_mem ((hmem n).2 hn)
  obtain ⟨row', hrow', heq'⟩ := hjoin hnames'
  rw [heq, heq', hrow'.unique (hrow.congr hmem)]

/-- Names that share a segment, an empty one and a version. -/
def tablets : List Text :=
  ["zwp__v2_tool", "zwp__v2", "zwp__v2_pad"].map Text.ofString

theorem commonSegments_tablets :
    tablets ≠ [] ∧ commonSegments tablets = "zwp_" ∧
      ∀ names', (∀ n, n ∈ names' ↔ n ∈ tablets) → commonSegments names' =
      "zwp_" := by
  have hne : tablets ≠ [] := by decide
  have hshared : commonSegments tablets = "zwp_" := by decide +kernel
  exact ⟨hne, hshared, fun names' hmem =>
    ((commonSegments_eq_join_shared hne).2 names' hmem).trans hshared⟩

end Naming

end ProtocolCorpus
