import Mathlib.Data.List.Chain
import ProtocolCorpus.Naming
import ProtocolCorpus.Proofs.Parts

/-!
# The shape of identifiers

An identifier is a row of words, runs of small ASCII letters and digits, with
single underscores between them, and one more in front if the first word starts
with a digit. While an identifier is spelled, what is written is such a row
after every code point, whatever the code points are. Everything that is known
of the look of an alias follows from this shape.
-/

namespace ProtocolCorpus

namespace Naming

variable {t w : Text} {b : UInt8} {ws : List Text} {s : Spelling} {n : Nat}

def isWordByte (b : UInt8) : Bool :=
  Text.isLower b || Text.isDigit b

def isNameByte (b : UInt8) : Bool :=
  isWordByte b || b == underscore

/-! ## Words -/

/-- A run of small letters and digits that is not empty. -/
structure IsWord (w : Text) : Prop where
  nonempty : w ≠ []
  bytes : ∀ b ∈ w, isWordByte b = true

theorem isWord_singleton (hb : isWordByte b = true) :
    IsWord [b] :=
  ⟨List.cons_ne_nil b [], fun _ ha => List.mem_singleton.1 ha ▸ hb⟩

theorem IsWord.concat (hw : IsWord w) (hb : isWordByte b = true) :
    IsWord (w ++ [b]) := by
  refine ⟨by simp, ?_⟩
  intro a ha
  rcases List.mem_append.1 ha with ha | ha
  · exact hw.bytes a ha
  · exact (isWord_singleton hb).bytes a ha

theorem ne_underscore_of_isWordByte (hb : isWordByte b = true) :
    b ≠ underscore := by
  rintro rfl
  exact absurd hb (by decide)

theorem isWord_ofNat (n : Nat) :
    IsWord (Text.ofNat n) := by
  constructor
  · rw [Text.ofNat, Text.ofNatBase, ne_eq, List.map_eq_nil_iff]
    exact Nat.toDigits_ne_nil
  · intro b hb
    rw [isWordByte, Text.isDigit_of_mem_ofNat hb, Bool.or_true]

/-! ## Spelling -/

theorem isWordByte_of_wordByte? (h : wordByte? n = some b) :
    isWordByte b = true := by
  simp only [wordByte?] at h
  split at h
  next hword =>
    rw [Bool.and_eq_true] at hword
    rw [← Option.some.inj h]
    exact hword.2
  next => cases h

/-- What is written consists of words with single underscores between them. -/
def Spelling.InWords (s : Spelling) : Prop :=
  ∃ ws, (∀ w ∈ ws, IsWord w) ∧ s.written = Text.join "_" ws

theorem join_concat_append (ws : List Text) (w v : Text) :
    Text.join "_" (ws ++ [w ++ v]) = Text.join "_" (ws ++ [w]) ++ v := by
  cases ws with
  | nil => rfl
  | cons u us =>
    have hne : u :: us ≠ [] := List.cons_ne_nil u us
    rw [Text.join_concat hne, Text.join_concat hne, List.append_assoc _ w v]

/-- A byte of a word starts a word behind a gap, and goes on with the last word
otherwise. -/
theorem Spelling.InWords.read (h : s.InWords) (n : Nat) :
    (s.read n).InWords := by
  obtain ⟨ws, hws, hwritten⟩ := h
  rw [Spelling.read]
  split
  next => exact ⟨ws, hws, hwritten⟩
  next =>
    split
    next b hb =>
      have hword := isWordByte_of_wordByte? hb
      split
      next hgap =>
        have hne : ws ≠ [] := by
          rintro rfl
          rw [hwritten] at hgap
          simp [Text.join] at hgap
        refine ⟨ws ++ [[b]], ?_, ?_⟩
        · intro w hw
          rcases List.mem_append.1 hw with hw | hw
          · exact hws w hw
          · exact List.mem_singleton.1 hw ▸ isWord_singleton hword
        · rw [Text.join_concat hne, ← hwritten, List.append_assoc]
          rfl
      next =>
        rcases List.eq_nil_or_concat' ws with rfl | ⟨us, u, rfl⟩
        · refine ⟨[[b]], ?_, ?_⟩
          · intro w hw
            exact List.mem_singleton.1 hw ▸ isWord_singleton hword
          · rw [hwritten]
            rfl
        · refine ⟨us ++ [u ++ [b]], ?_, ?_⟩
          · intro w hw
            rcases List.mem_append.1 hw with hw | hw
            · exact hws w (List.mem_append_left _ hw)
            · rw [List.mem_singleton.1 hw]
              exact (hws u (by simp)).concat hword
          · rw [join_concat_append, ← hwritten]
    next => exact ⟨ws, hws, hwritten⟩

theorem inWords_foldl (codes : List Nat) (h : s.InWords) :
    (codes.foldl Spelling.read s).InWords := by
  induction codes generalizing s with
  | nil => exact h
  | cons n codes ih => exact ih (h.read n)

def ofWords (ws : List Text) : Text :=
  guardDigit (Text.join "_" ws)

/-- Whatever is spelled, words come out. -/
theorem exists_spell_eq_ofWords (codes : List Nat) :
    ∃ ws, (∀ w ∈ ws, IsWord w) ∧ spell codes = ofWords ws := by
  have hstart : ({} : Spelling).InWords := ⟨[], by simp, rfl⟩
  obtain ⟨ws, hws, hwritten⟩ := inWords_foldl codes hstart
  exact ⟨ws, hws, congrArg guardDigit hwritten⟩

def Spelled (t : Text) : Prop :=
  ∃ ws, ws ≠ [] ∧ (∀ w ∈ ws, IsWord w) ∧ t = ofWords ws

/-- An identifier is empty or made of words. -/
theorem spelled_identifier (h : identifier t ≠ []) :
    Spelled (identifier t) := by
  obtain ⟨ws, hws, heq⟩ := exists_spell_eq_ofWords (Text.decomposition t)
  refine ⟨ws, ?_, hws, heq⟩
  rintro rfl
  exact h heq

theorem Spelled.concat (ht : Spelled t) (hw : IsWord w) :
    Spelled (t ++ "_" ++ w) := by
  obtain ⟨ws, hne, hws, rfl⟩ := ht
  refine ⟨ws ++ [w], by simp, ?_, ?_⟩
  · intro v hv
    rcases List.mem_append.1 hv with hv | hv
    · exact hws v hv
    · rw [List.mem_singleton.1 hv]
      exact hw
  · obtain ⟨u, us, rfl⟩ := List.exists_cons_of_ne_nil hne
    have hu := (hws u List.mem_cons_self).nonempty
    simp only [ofWords, guardDigit, startsWithDigit, List.cons_append,
      Text.head?_join "_" hu]
    rw [← List.cons_append, Text.join_concat hne]
    split
    · rfl
    · rfl

/-! ## What an identifier looks like byte by byte -/

/-- Two underscores do not follow each other. -/
def Apart (a b : UInt8) : Prop :=
  a = underscore → b ≠ underscore

/-- A text of small letters, digits and single underscores that does not end in
an underscore, and starts with one only before a digit. -/
structure Tidy (t : Text) : Prop where
  nonempty : t ≠ []
  bytes : ∀ b ∈ t, Text.isLower b = true ∨ Text.isDigit b = true ∨
    b = underscore
  single : t.IsChain Apart
  last : t.getLast? ≠ some underscore
  front : t.head? = some underscore → ∃ d, t[1]? = some d ∧ Text.isDigit d =
    true

theorem IsWord.isChain (hw : IsWord w) :
    w.IsChain Apart := by
  apply List.Pairwise.isChain
  apply List.pairwise_of_forall_mem_list
  intro a ha b hb h
  exact absurd h (ne_underscore_of_isWordByte (hw.bytes a ha))

theorem join_ne_nil (hw : IsWord w) (ws : List Text) :
    Text.join "_" (w :: ws) ≠ [] := by
  intro hnil
  have hhead := Text.head?_join "_" hw.nonempty ws
  rw [hnil] at hhead
  exact hw.nonempty (List.head?_eq_none_iff.1 hhead.symm)

theorem isWordByte_of_head?_join (hw : IsWord w)
    (hb : (Text.join "_" (w :: ws)).head? = some b) :
    isWordByte b = true := by
  rw [Text.head?_join "_" hw.nonempty] at hb
  exact hw.bytes b (List.mem_of_mem_head? hb)

theorem join_cons_cons (w v : Text) (vs : List Text) :
    Text.join "_" (w :: v :: vs) = w ++ underscore :: Text.join "_"
    (v :: vs) := by
  rw [Text.join, List.append_assoc]
  rfl

theorem isNameByte_of_mem_join (hws : ∀ w ∈ ws, IsWord w)
    (hb : b ∈ Text.join "_" ws) :
    isNameByte b = true := by
  induction ws with
  | nil => cases hb
  | cons w ws ih =>
    have hword : b ∈ w → isNameByte b = true := by
      intro h
      rw [isNameByte, (hws w List.mem_cons_self).bytes b h, Bool.true_or]
    cases ws with
    | nil => exact hword hb
    | cons v vs =>
      rw [join_cons_cons, List.mem_append, List.mem_cons] at hb
      rcases hb with hb | rfl | hb
      · exact hword hb
      · rfl
      · exact ih (fun u hu => hws u (List.mem_cons_of_mem w hu)) hb

theorem isChain_join (hws : ∀ w ∈ ws, IsWord w) :
    (Text.join "_" ws).IsChain Apart := by
  induction ws with
  | nil => exact List.IsChain.nil
  | cons w ws ih =>
    have hw := hws w List.mem_cons_self
    cases ws with
    | nil => exact hw.isChain
    | cons v vs =>
      have hv := hws v (List.mem_cons_of_mem w List.mem_cons_self)
      have hrest := ih fun u hu => hws u (List.mem_cons_of_mem w hu)
      rw [join_cons_cons]
      -- The underscore stands between the last byte of `w` and the first byte
      -- of `v`.
      apply hw.isChain.append
      · apply hrest.cons
        intro b hb _
        exact ne_underscore_of_isWordByte (isWordByte_of_head?_join hv hb)
      · intro a ha _ _ heq
        exact absurd heq
          (ne_underscore_of_isWordByte (hw.bytes a (List.mem_of_getLast? ha)))

theorem isWordByte_of_getLast?_join (hws : ∀ w ∈ ws, IsWord w)
    (hb : (Text.join "_" ws).getLast? = some b) :
    isWordByte b = true := by
  induction ws with
  | nil => cases hb
  | cons w ws ih =>
    cases ws with
    | nil => exact (hws w List.mem_cons_self).bytes b (List.mem_of_getLast? hb)
    | cons v vs =>
      have hv := hws v (List.mem_cons_of_mem w List.mem_cons_self)
      rw [join_cons_cons,
        List.getLast?_append_of_ne_nil _ (List.cons_ne_nil _ _),
        List.getLast?_cons_of_ne_nil (join_ne_nil hv vs)] at hb
      exact ih (fun u hu => hws u (List.mem_cons_of_mem w hu)) hb

/-- Words in a row are tidy without an underscore in front. -/
theorem tidy_join (h : ∀ v ∈ w :: ws, IsWord v) :
    Tidy (Text.join "_" (w :: ws)) := by
  have hw := h w List.mem_cons_self
  constructor
  case nonempty => exact join_ne_nil hw ws
  case bytes =>
    intro b hb
    have hname := isNameByte_of_mem_join h hb
    rw [isNameByte, isWordByte, Bool.or_eq_true, Bool.or_eq_true, beq_iff_eq,
      or_assoc] at hname
    exact hname
  case single => exact isChain_join h
  case last =>
    intro heq
    exact ne_underscore_of_isWordByte (isWordByte_of_getLast?_join h heq) rfl
  case front =>
    intro heq
    exact absurd rfl
      (ne_underscore_of_isWordByte (isWordByte_of_head?_join hw heq))

theorem Tidy.underscore_cons {d : UInt8} (ht : Tidy (d :: t))
    (hd : Text.isDigit d = true) :
    Tidy (underscore :: d :: t) := by
  have hne : d ≠ underscore := by
    apply ne_underscore_of_isWordByte
    rw [isWordByte, hd, Bool.or_true]
  constructor
  case nonempty => exact List.cons_ne_nil _ _
  case bytes =>
    intro b hb
    rcases List.mem_cons.1 hb with rfl | hb
    · exact Or.inr (Or.inr rfl)
    · exact ht.bytes b hb
  case single => exact List.isChain_cons_cons.2 ⟨fun _ => hne, ht.single⟩
  case last =>
    rw [List.getLast?_cons_of_ne_nil (List.cons_ne_nil _ _)]
    exact ht.last
  case front => exact fun _ => ⟨d, rfl, hd⟩

theorem Spelled.tidy (ht : Spelled t) :
    Tidy t := by
  obtain ⟨ws, hne, hws, rfl⟩ := ht
  obtain ⟨w, ws, rfl⟩ := List.exists_cons_of_ne_nil hne
  have hjoin := tidy_join hws
  obtain ⟨b, rest, heq⟩ := List.exists_cons_of_ne_nil hjoin.nonempty
  rw [heq] at hjoin
  rw [ofWords, guardDigit, heq]
  by_cases hdigit : Text.isDigit b = true
  · have hfront : startsWithDigit (b :: rest) = true := hdigit
    rw [hfront]
    exact hjoin.underscore_cons hdigit
  · have hfront : startsWithDigit (b :: rest) = false := by
      simpa [startsWithDigit] using hdigit
    rw [hfront]
    exact hjoin

end Naming

end ProtocolCorpus
