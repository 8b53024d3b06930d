import ProtocolCorpus.Interchange.Basic
import ProtocolCorpus.Proofs.Codec

/-!
# The shape of what codecs write

The trees that codecs write nest only so deep, and the keys of a record are
names of fields, each of which stands there once. A format can rely on both,
whatever the value is that was written.
-/

namespace ProtocolCorpus

/-- A key that is a word in every format: plain, not empty, and no word for a
truth value or for nothing. -/
def isFieldName (k : Text) : Bool :=
  isPlainKey k &&
    !([[], "y", "n", "yes", "no", "on", "off", "true", "false", "null"] : List
    Text).contains k

/-- The tree nests at most `depth` deep, and the keys of its records are names
of fields, each once. -/
def Tree.Regular : (depth : Nat) → Tree → Prop
  | depth + 1, .list ts => ∀ t ∈ ts, Regular depth t
  | depth + 1, .record ms =>
    (ms.map Prod.fst).Nodup ∧ ∀ m ∈ ms, isFieldName m.1 = true ∧
      Regular depth m.2
  | 0, .list _ => False
  | 0, .record _ => False
  | _, _ => True

def Field.Regular {σ : Type} (depth : Nat) (s : σ) (f : Field σ) : Prop :=
  ∀ tree, f.write s = some tree → tree.Regular depth

variable {α σ : Type} {depth : Nat}

namespace Codec

@[simp]
theorem regular_text (t : Text) : (text.write t).Regular depth := by
  cases depth <;> exact True.intro

@[simp]
theorem regular_int (n : Int) : (int.write n).Regular depth := by
  cases depth <;> exact True.intro

@[simp]
theorem regular_word (w : UInt32) : (word.write w).Regular depth := by
  cases depth <;> exact True.intro

@[simp]
theorem regular_bool (b : Bool) : (bool.write b).Regular depth := by
  cases depth <;> exact True.intro

@[simp]
theorem regular_list
    {item : Codec α} {as : List α} :
    ((list item).write as).Regular (depth + 1) ↔
      ∀ a ∈ as, (item.write a).Regular depth := by
  change (∀ t ∈ as.map item.write, t.Regular depth) ↔ _
  exact List.forall_mem_map

@[simp]
theorem regular_absentOr
    {item : Codec α} {as? : Option (List α)} :
    ((absentOr item).write as?).Regular (depth + 1) ↔
      ∀ as ∈ as?, ∀ a ∈ as, (item.write a).Regular depth := by
  cases as? with
  | none =>
    refine iff_of_true True.intro ?_
    intro as has
    cases has
  | some as =>
    change ((list item).write as).Regular (depth + 1) ↔ _
    simp

end Codec

namespace Field

variable {key : Text} {s : σ}

@[simp]
theorem regular_omitting
    {omitted : α → Bool} {k : Codec α} {get : σ → α} {set : α → σ → σ} :
    (omitting omitted key k get set).Regular depth s ↔
      (omitted (get s) = false → (k.write (get s)).Regular depth) := by
  cases homitted : omitted (get s) with
  | true => simp [Field.Regular, omitting, homitted]
  | false => simp [Field.Regular, omitting, homitted]

@[simp]
theorem regular_always
    {k : Codec α} {get : σ → α} {set : α → σ → σ} :
    (always key k get set).Regular depth s ↔
      (k.write (get s)).Regular depth := by
  simp [always]

@[simp]
theorem regular_text
    {get : σ → Text} {set : Text → σ → σ} :
    (text key get set).Regular depth s := by
  simp [text]

@[simp]
theorem regular_int
    {get : σ → Int} {set : Int → σ → σ} :
    (int key get set).Regular depth s := by
  simp [int]

@[simp]
theorem regular_flag
    {get : σ → Bool} {set : Bool → σ → σ} :
    (flag key get set).Regular depth s := by
  simp [flag]

@[simp]
theorem regular_list
    {item : Codec α} {get : σ → List α} {set : List α → σ → σ}
    (hitem : ∀ a, (item.write a).Regular depth) :
    (list key item get set).Regular (depth + 1) s := by
  simp [list, hitem]

@[simp]
theorem regular_optional
    {inner : Codec α} {get : σ → Option α} {set : Option α → σ → σ}
    (hinner : ∀ a, (inner.write a).Regular depth) :
    (optional key inner get set).Regular depth s := by
  simp only [optional, regular_omitting]
  cases get s with
  | none => simp
  | some a => exact fun _ => hinner a

end Field

theorem Codec.regular_record
    {zero s : σ} {fields : List (Field σ)}
    (hnames : ∀ f ∈ fields, isFieldName f.key = true)
    (hdistinct : (fields.map Field.key).Nodup)
    (hfields : ∀ f ∈ fields, f.Regular depth s) :
    ((record zero fields).write s).Regular (depth + 1) := by
  constructor
  · have hkeys :
        ((fields.filterMap fun f => (f.write s).map fun t => (f.key, t)).map
        Prod.fst).Sublist
        (fields.map Field.key) := by
      clear hnames hdistinct hfields
      induction fields with
      | nil => exact List.Sublist.refl _
      | cons f fs ih =>
        rw [List.filterMap_cons]
        cases f.write s with
        | none => exact ih.cons f.key
        | some t => exact ih.cons_cons f.key
    exact hkeys.nodup hdistinct
  · intro m hm
    obtain ⟨f, hf, hwritten⟩ := List.mem_filterMap.1 hm
    obtain ⟨t, ht, rfl⟩ := Option.map_eq_some_iff.1 hwritten
    exact ⟨hnames f hf, hfields f hf t ht⟩

/-! ## The interchange form -/

namespace Interchange

@[simp]
theorem Reference.regular (r : Reference) :
    (Reference.codec.write r).Regular (depth + 1) :=
  Codec.regular_record (by decide) (by decide) (by simp)

@[simp]
theorem EnumReference.regular (r : EnumReference) :
    (EnumReference.codec.write r).Regular (depth + 1) :=
  Codec.regular_record (by decide) (by decide) (by simp)

@[simp]
theorem Argument.regular (a : Argument) :
    (Argument.codec.write a).Regular (depth + 2) :=
  Codec.regular_record (by decide) (by decide) (by simp)

@[simp]
theorem Message.regular (m : Message) :
    (Message.codec.write m).Regular (depth + 4) :=
  Codec.regular_record (by decide) (by decide) (by simp)

@[simp]
theorem Entry.regular (e : Entry) :
    (Entry.codec.write e).Regular (depth + 1) :=
  Codec.regular_record (by decide) (by decide) (by simp)

@[simp]
theorem Enumeration.regular (e : Enumeration) :
    (Enumeration.codec.write e).Regular (depth + 3) :=
  Codec.regular_record (by decide) (by decide) (by simp)

@[simp]
theorem Interface.regular (i : Interface) :
    (Interface.codec.write i).Regular (depth + 6) :=
  Codec.regular_record (by decide) (by decide) (by simp)

@[simp]
theorem Import.regular (i : Import) :
    (Import.codec.write i).Regular (depth + 1) :=
  Codec.regular_record (by decide) (by decide) (by simp)

@[simp]
theorem Document.regular (d : Document) :
    (Document.codec.write d).Regular (depth + 8) :=
  Codec.regular_record (by decide) (by decide) (by simp)

/-- A corpus is written as a regular tree of ten levels. -/
theorem Corpus.regular (c : Corpus) :
    (Corpus.codec.write c).Regular 10 :=
  Codec.regular_record (by decide) (by decide) (by simp)

end Interchange

end ProtocolCorpus
