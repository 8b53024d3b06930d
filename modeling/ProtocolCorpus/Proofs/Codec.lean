import ProtocolCorpus.Data.Codec

/-!
# Values that come back

A codec keeps a value if reading what it writes gives the value again. Whether
it does depends on the format in between, of which two things matter: which
trees it can carry, and what its reader makes of a tree it has carried. Both are
told by a `Medium`. Codecs of scalars keep what the medium carries, and the
codecs made from others keep what their parts keep; a field that is left out
comes back because it is what the reader starts with.
-/

namespace ProtocolCorpus

/-- What a format can carry: which texts, which integers, and how many items in
a list or a record. -/
structure Limits where
  text : Text → Prop
  int : Int → Prop
  length : Nat → Prop

theorem Tree.sizeOf_lt_of_mem_list {t : Tree} {ts : List Tree} (h : t ∈ ts) :
    sizeOf t < sizeOf (Tree.list ts) := by
  have hlt := List.sizeOf_lt_of_mem h
  rw [Tree.list.sizeOf_spec]
  omega

theorem Tree.sizeOf_lt_of_mem_record
    {m : Text × Tree} {ms : List (Text × Tree)} (h : m ∈ ms) :
    sizeOf m.2 < sizeOf (Tree.record ms) := by
  obtain ⟨key, t⟩ := m
  have hlt := List.sizeOf_lt_of_mem h
  simp only [Tree.record.sizeOf_spec, Prod.mk.sizeOf_spec] at hlt ⊢
  omega

/-- Every part of the tree can be carried. -/
def Tree.Within (l : Limits) : Tree → Prop
  | .absent => True
  | .bool _ => True
  | .int n => l.int n
  | .text t => l.text t
  | .list ts => l.length ts.length ∧ ∀ t ∈ ts, t.Within l
  | .record ms => l.length ms.length ∧ ∀ m ∈ ms, l.text m.1 ∧ m.2.Within l
decreasing_by
  · exact sizeOf_lt_of_mem_list ‹_›
  · exact sizeOf_lt_of_mem_record ‹_›

/-- What is read where a tree was written. Formats differ in what they make of
an integer. -/
def Tree.datum (integer : Int → Views) : Tree → Datum
  | .absent => .null
  | .bool b => .scalar { bool? := some b }
  | .int n => .scalar (integer n)
  | .text t => .scalar { text? := some t }
  | .list ts => .list (ts.map (datum integer))
  | .record ms => .record (ms.map fun m => (m.1, datum integer m.2))
decreasing_by
  · exact sizeOf_lt_of_mem_list ‹_›
  · exact sizeOf_lt_of_mem_record ‹_›

/-- A key that every format takes as it is: a few lower case letters and
underscores. -/
def isPlainKey (k : Text) : Bool :=
  k.length < 32 && k.all fun b => (0x61 ≤ b && b ≤ 0x7A) || b == 0x5F

/-- A format as codecs see it. -/
structure Medium where
  conventions : Conventions
  limits : Limits
  integer : Int → Views
  int?_integer : ∀ n, limits.int n → (integer n).int? = some n
  word?_integer : ∀ w : UInt32,
    limits.int w.toNat ∧ (integer w.toNat).word? = some w
  /-- Plain keys can be carried and name exactly the field they are the key of.
  -/
  key : ∀ k, isPlainKey k = true → limits.text k ∧
    ∀ field, isPlainKey field = true → conventions.names field k = (field == k)
  length : ∀ n, n < 16 → limits.length n

def Medium.datum (M : Medium) : Tree → Datum :=
  Tree.datum M.integer

variable {α σ : Type} {M : Medium}

/-- The value comes back from what the codec writes. -/
structure Codec.Keeps (M : Medium) (k : Codec α) (a : α) : Prop where
  within : (k.write a).Within M.limits
  read_eq : k.read M.conventions (M.datum (k.write a)) k.zero = some a

namespace Medium

theorem datum_absent (M : Medium) : M.datum .absent = .null := by
  rw [datum, Tree.datum]

theorem datum_list (M : Medium) (ts : List Tree) :
    M.datum (.list ts) = .list (ts.map M.datum) := by
  rw [datum, Tree.datum]

theorem datum_record (M : Medium) (ms : List (Text × Tree)) :
    M.datum (.record ms) = .record (ms.map fun m => (m.1, M.datum m.2)) := by
  rw [datum, Tree.datum]

theorem isNull_datum {t : Tree} (hne : t ≠ .absent) :
    (M.datum t).isNull = false := by
  cases t with
  | absent => exact absurd rfl hne
  | bool b =>
    rw [datum, Tree.datum]
    rfl
  | int n =>
    rw [datum, Tree.datum]
    rfl
  | text t =>
    rw [datum, Tree.datum]
    rfl
  | list ts =>
    rw [datum, Tree.datum]
    rfl
  | record ms =>
    rw [datum, Tree.datum]
    rfl

end Medium

namespace Codec

variable {item : Codec α} {as : List α}

/-! ## Scalars -/

/-- A scalar comes back if the medium carries it and shows it to the view of its
type. -/
theorem keeps_ofView
    {zero a : α} {write : α → Tree} {view : Views → Option α} {v : Views}
    (hwithin : (write a).Within M.limits)
    (hdatum : M.datum (write a) = .scalar v) (hview : view v = some a) :
    (ofView zero write view).Keeps M a := by
  refine ⟨hwithin, ?_⟩
  have hwritten : (ofView zero write view).write a = write a := rfl
  rw [hwritten, hdatum]
  exact hview

theorem keeps_text
    {t : Text} (ht : M.limits.text t) :
    text.Keeps M t :=
  keeps_ofView (by rwa [Tree.Within]) (by rw [Medium.datum, Tree.datum]) rfl

theorem keeps_int
    {n : Int} (hn : M.limits.int n) :
    int.Keeps M n :=
  keeps_ofView (by rwa [Tree.Within]) (by rw [Medium.datum, Tree.datum])
    (M.int?_integer n hn)

theorem keeps_word (w : UInt32) :
    word.Keeps M w := by
  obtain ⟨hw, hview⟩ := M.word?_integer w
  exact keeps_ofView (by rwa [Tree.Within])
    (by rw [Medium.datum, Tree.datum]) hview

theorem keeps_bool (b : Bool) :
    bool.Keeps M b :=
  keeps_ofView (by rw [Tree.Within]; exact True.intro)
    (by rw [Medium.datum, Tree.datum]) rfl

/-! ## Lists and what need not be there -/

/-- Items that are read on top of nothing come back one after the other. -/
theorem readItems_eq_some (has : ∀ a ∈ as, item.Keeps M a) :
    readItems (item.read M.conventions) item.zero
    (as.map fun a => M.datum (item.write a)) [] = some as := by
  induction as with
  | nil => rfl
  | cons a as ih =>
    have hrest := ih fun b hb => has b (List.mem_cons_of_mem a hb)
    rw [List.map_cons, readItems, List.head?_nil, Option.getD_none,
      (has a List.mem_cons_self).read_eq, List.tail_nil, hrest]
    rfl

/-- No item of a list is lost among the nulls. -/
theorem items_map_datum (hne : ∀ a ∈ as, item.write a ≠ .absent) :
    items M.conventions (as.map fun a => M.datum (item.write a)) =
      as.map fun a => M.datum (item.write a) := by
  unfold items
  split
  · apply List.filter_eq_self.2
    intro d hd
    obtain ⟨a, ha, rfl⟩ := List.mem_map.1 hd
    rw [Medium.isNull_datum (hne a ha)]
    rfl
  · rfl

theorem readItems_datum_list (has : ∀ a ∈ as, item.Keeps M a)
    (hne : ∀ a ∈ as, item.write a ≠ .absent) :
    readItems (item.read M.conventions) item.zero
      (items M.conventions ((as.map item.write).map M.datum)) [] = some as := by
  rw [List.map_map, show (M.datum ∘ item.write) = fun a =>
    M.datum (item.write a) from rfl, items_map_datum hne, readItems_eq_some has]

theorem within_list (hlength : M.limits.length as.length)
    (has : ∀ a ∈ as, item.Keeps M a) :
    (Tree.list (as.map item.write)).Within M.limits := by
  rw [Tree.Within]
  refine ⟨by rwa [List.length_map], ?_⟩
  intro t ht
  obtain ⟨a, ha, rfl⟩ := List.mem_map.1 ht
  exact (has a ha).within

theorem keeps_list (hlength : M.limits.length as.length)
    (has : ∀ a ∈ as, item.Keeps M a) (hne : ∀ a ∈ as, item.write a ≠ .absent) :
    (list item).Keeps M as := by
  have hwritten : (list item).write as = .list (as.map item.write) := rfl
  constructor
  · rw [hwritten]
    exact within_list hlength has
  · rw [hwritten, M.datum_list]
    exact readItems_datum_list has hne

theorem keeps_absentOr {as? : Option (List α)}
    (hlength : ∀ as ∈ as?, M.limits.length as.length)
    (has : ∀ as ∈ as?, ∀ a ∈ as, item.Keeps M a)
    (hne : ∀ a, item.write a ≠ .absent) :
    (absentOr item).Keeps M as? := by
  cases as? with
  | none =>
    have hwritten : (absentOr item).write none = .absent := rfl
    constructor
    · rw [hwritten, Tree.Within]
      exact True.intro
    · rw [hwritten, M.datum_absent]
      rfl
  | some as =>
    have hwritten : (absentOr item).write (some as) =
      .list (as.map item.write) := rfl
    constructor
    · rw [hwritten]
      exact within_list (hlength as rfl) (has as rfl)
    · rw [hwritten, M.datum_list]
      exact congrArg (Option.map some)
        (readItems_datum_list (has as rfl) fun a _ => hne a)

theorem keeps_optional
    {inner : Codec α} {a? : Option α} (ha : ∀ a ∈ a?, inner.Keeps M a)
    (hne : ∀ a, inner.write a ≠ .absent) :
    (optional inner).Keeps M a? := by
  cases a? with
  | none =>
    have hwritten : (optional inner).write none = .absent := rfl
    constructor
    · rw [hwritten, Tree.Within]
      exact True.intro
    · rw [hwritten, M.datum_absent]
      rfl
  | some a =>
    have hkeeps := ha a rfl
    have hwritten : (optional inner).write (some a) = inner.write a := rfl
    have hread : (optional inner).read M.conventions
        (M.datum (inner.write a)) none =
        (inner.read M.conventions (M.datum (inner.write a)) inner.zero).map
        some := by
      have hnull := Medium.isNull_datum (M := M) (hne a)
      cases hdatum : M.datum (inner.write a) with
      | null =>
        rw [hdatum] at hnull
        cases hnull
      | scalar v => rfl
      | list ds => rfl
      | record ms => rfl
    constructor
    · rw [hwritten]
      exact hkeeps.within
    · rw [hwritten]
      exact hread.trans (congrArg (Option.map some) hkeeps.read_eq)

end Codec

/-! ## Records -/

/-- Reading what was written of a field of `s` makes `t'` of `t`, and so does
reading nothing if the field was left out. -/
structure Field.Passes (M : Medium) (f : Field σ) (s t t' : σ) : Prop where
  omitted : f.write s = none → t' = t
  written : ∀ tree, f.write s = some tree →
    tree.Within M.limits ∧ f.read M.conventions (M.datum tree) t = some t'

/-- Reading what was written of the fields of `s`, one after the other, makes
`u` of `t`. -/
inductive Passage (M : Medium) (s : σ) : List (Field σ) → σ → σ → Prop
  | nil (t : σ) : Passage M s [] t t
  | cons {f : Field σ} {fs : List (Field σ)} {t t' u : σ}
  (head : f.Passes M s t t')
      (tail : Passage M s fs t' u) : Passage M s (f :: fs) t u

namespace Field

variable {k : Codec α} {get : σ → α} {set : α → σ → σ} {key : Text} {s t : σ}

/-- A field passes if the codec keeps its value, it is not yet set, and it is
left out only if it need not be set. -/
theorem passes_omitting
    {omitted : α → Bool} (hkeeps : k.Keeps M (get s)) (hzero : get t = k.zero)
    (homitted : omitted (get s) = true → get s = k.zero)
    (hsame : set (get t) t = t) :
    (omitting omitted key k get set).Passes M s t (set (get s) t) := by
  by_cases hleft : omitted (get s) = true
  · have hwrite : (omitting omitted key k get set).write s = none :=
      if_pos hleft
    constructor
    · intro _
      rw [homitted hleft, ← hzero, hsame]
    · intro tree htree
      cases hwrite.symm.trans htree
  · have hwrite : (omitting omitted key k get set).write s =
      some (k.write (get s)) := if_neg hleft
    constructor
    · intro hnone
      cases hwrite.symm.trans hnone
    · intro tree htree
      cases hwrite.symm.trans htree
      have hread : (omitting omitted key k get set).read M.conventions
          (M.datum (k.write (get s))) t =
          (k.read M.conventions (M.datum (k.write (get s))) (get t)).map
          fun a => set a t := rfl
      refine ⟨hkeeps.within, ?_⟩
      rw [hread, hzero, hkeeps.read_eq]
      rfl

theorem passes_always
    (hkeeps : k.Keeps M (get s)) (hzero : get t = k.zero)
    (hsame : set (get t) t = t) :
    (always key k get set).Passes M s t (set (get s) t) :=
  passes_omitting hkeeps hzero (fun h => by cases h) hsame

theorem passes_text
    {get : σ → Text} {set : Text → σ → σ} (ht : M.limits.text (get s))
    (hzero : get t = []) (hsame : set (get t) t = t) :
    (text key get set).Passes M s t (set (get s) t) :=
  passes_omitting (Codec.keeps_text ht) hzero List.isEmpty_iff.1 hsame

theorem passes_int
    {get : σ → Int} {set : Int → σ → σ} (hn : M.limits.int (get s))
    (hzero : get t = 0) (hsame : set (get t) t = t) :
    (int key get set).Passes M s t (set (get s) t) :=
  passes_omitting (Codec.keeps_int hn) hzero eq_of_beq hsame

theorem passes_flag
    {get : σ → Bool} {set : Bool → σ → σ} (hzero : get t = false)
    (hsame : set (get t) t = t) :
    (flag key get set).Passes M s t (set (get s) t) :=
  passes_omitting (Codec.keeps_bool _) hzero
    (fun h => show get s = false by simpa using h) hsame

theorem passes_list
    {item : Codec α} {get : σ → List α} {set : List α → σ → σ}
    (hkeeps : (Codec.list item).Keeps M (get s)) (hzero : get t = [])
    (hsame : set (get t) t = t) :
    (list key item get set).Passes M s t (set (get s) t) :=
  passes_omitting hkeeps hzero List.isEmpty_iff.1 hsame

theorem passes_optional
    {inner : Codec α} {get : σ → Option α} {set : Option α → σ → σ}
    (hkeeps : (Codec.optional inner).Keeps M (get s)) (hzero : get t = none)
    (hsame : set (get t) t = t) :
    (optional key inner get set).Passes M s t (set (get s) t) :=
  passes_omitting hkeeps hzero Option.isNone_iff_eq_none.1 hsame

end Field

namespace Codec

/-- A plain key finds its own field if all fields have plain keys and no two the
same. -/
theorem find?_names
    {done rest : List (Field σ)} {f : Field σ}
    (hplain : ∀ g ∈ done ++ f :: rest, isPlainKey g.key = true)
    (hdistinct : ((done ++ f :: rest).map Field.key).Nodup) :
    ((done ++ f :: rest).find? fun g => M.conventions.names g.key f.key) =
      some f := by
  have hf : isPlainKey f.key = true := hplain f (by simp)
  have hnames : ∀ g ∈ done ++ f :: rest, M.conventions.names g.key f.key =
    (g.key == f.key) :=
    fun g hg => (M.key f.key hf).2 g.key (hplain g hg)
  rw [List.find?_append, List.find?_eq_none.2, Option.none_or]
  · rw [List.find?_cons_of_pos]
    rw [hnames f (by simp)]
    exact beq_self_eq_true f.key
  · intro g hg
    have hne : g.key ≠ f.key := by
      rw [List.map_append, List.map_cons, List.nodup_append] at hdistinct
      exact hdistinct.2.2 g.key (List.mem_map_of_mem hg) f.key
        List.mem_cons_self
    rw [hnames g (List.mem_append_left _ hg)]
    simpa using hne

/-- The members that were written of the fields still to come lead where the
fields lead. -/
theorem foldlM_readMember
    (done : List (Field σ)) {rest : List (Field σ)} {s t u : σ}
    (h : Passage M s rest t u)
    (hplain : ∀ g ∈ done ++ rest, isPlainKey g.key = true)
    (hdistinct : ((done ++ rest).map Field.key).Nodup) :
    ((rest.filterMap fun f => (f.write s).map fun tree => (f.key, tree)).map
      fun m => (m.1, M.datum m.2)).foldlM
      (readMember M.conventions (done ++ rest)) t = some u := by
  induction h generalizing done with
  | nil t => rfl
  | @cons f fs t t' u head tail ih =>
    have hrest :=
      ih (done ++ [f]) (by simpa using hplain) (by simpa using hdistinct)
    rw [List.append_assoc, List.singleton_append] at hrest
    cases hwrite : f.write s with
    | none =>
      rw [head.omitted hwrite] at hrest
      rw [List.filterMap_cons_none (by rw [hwrite]; rfl)]
      exact hrest
    | some tree =>
      rw [List.filterMap_cons_some (b := (f.key, tree)) (by rw [hwrite]; rfl),
        List.map_cons, List.foldlM_cons, readMember,
        find?_names hplain hdistinct]
      dsimp only
      rw [(head.written tree hwrite).2]
      exact hrest

theorem within_members
    {s t u : σ} {fields : List (Field σ)} (h : Passage M s fields t u)
    (hplain : ∀ f ∈ fields, isPlainKey f.key = true) :
    ∀ m ∈ fields.filterMap fun f => (f.write s).map fun tree => (f.key, tree),
      M.limits.text m.1 ∧ m.2.Within M.limits := by
  intro m hm
  induction h with
  | nil t => cases hm
  | @cons f fs t t' u head tail ih =>
    rw [List.filterMap_cons] at hm
    split at hm
    · exact ih (fun g hg => hplain g (List.mem_cons_of_mem f hg)) hm
    · rename_i member hmember
      rcases List.mem_cons.1 hm with rfl | hm
      · obtain ⟨tree, hwrite, rfl⟩ := Option.map_eq_some_iff.1 hmember
        exact ⟨(M.key f.key (hplain f List.mem_cons_self)).1,
          (head.written tree hwrite).1⟩
      · exact ih (fun g hg => hplain g (List.mem_cons_of_mem f hg)) hm

/-- What the fields of a record have to be for it to come back: few, and told
apart by plain keys. -/
structure Legible (fields : List (Field σ)) : Prop where
  length : fields.length < 16
  plain : ∀ f ∈ fields, isPlainKey f.key = true
  distinct : (fields.map Field.key).Nodup

/-- A record comes back if its fields lead from what the reader starts with to
the record. -/
theorem keeps_record
    {zero s : σ} {fields : List (Field σ)} (hfields : Legible fields)
    (h : Passage M s fields zero s) :
    (record zero fields).Keeps M s := by
  have hwritten : (record zero fields).write s =
      .record (fields.filterMap fun f => (f.write s).map fun tree =>
        (f.key, tree)) := rfl
  constructor
  · rw [hwritten, Tree.Within]
    refine ⟨M.length _ ?_, within_members h hfields.plain⟩
    exact Nat.lt_of_le_of_lt (List.length_filterMap_le _ fields) hfields.length
  · rw [hwritten, M.datum_record]
    exact foldlM_readMember [] h hfields.plain hfields.distinct

end Codec

end ProtocolCorpus
