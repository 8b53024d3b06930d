import Mathlib.Data.List.DropRight
import ProtocolCorpus.Document.Attribute
import ProtocolCorpus.Proofs.Numerals
import ProtocolCorpus.Proofs.Parts
import ProtocolCorpus.Proofs.Scalars

/-!
# Values of enumeration entries

The value of an entry is a numeral with white space around it: decimal digits,
or hexadecimal ones behind `0x` or `0X`. It is read as the number that the
digits denote, however many they are, and a number that does not fit into a word
is refused.
-/

namespace ProtocolCorpus

namespace Text

/-! ## White space at the ends -/

theorem isChar_of_isBlank
    {s : Scalar} (h : s.isBlank = true) :
    s.isChar = true := by
  cases s with
  | char c => rfl
  | stray b => cases h

theorem scalars_append_of_isBlank
    {t : Text} (h : isBlank t = true) (u : Text) :
    scalars (t ++ u) = scalars t ++ scalars u := by
  have hchars : isWellFormed t = true :=
    List.all_eq_true.2 fun s hs => isChar_of_isBlank (List.all_eq_true.1 h s hs)
  rw [← ofChars_chars hchars, scalars_ofChars_append, scalars_ofChars]

theorem isBlank_ofScalars
    {ss : List Scalar} (h : ∀ s ∈ ss, s.isBlank = true) :
    isBlank (ofScalars ss) = true := by
  have hchars : ss = (ss.filterMap Scalar.char?).map .char :=
    Scalar.map_char_filterMap_char? (List.all_eq_true.2 fun s hs =>
      isChar_of_isBlank (h s hs))
  have htext : ofScalars ss = ofChars (ss.filterMap Scalar.char?) := by
    rw [hchars, ofScalars, List.flatMap_map, ← hchars]
    rfl
  rw [isBlank, htext, scalars_ofChars, ← hchars]
  exact List.all_eq_true.2 h

theorem exists_trim_eq (t : Text) :
    ∃ front back, t = front ++ trim t ++ back ∧ isBlank front = true ∧
    isBlank back = true := by
  let rest := (scalars t).dropWhile Scalar.isBlank
  refine ⟨ofScalars ((scalars t).takeWhile Scalar.isBlank),
    ofScalars (rest.rtakeWhile Scalar.isBlank), ?_,
    isBlank_ofScalars fun s hs => List.mem_takeWhile_imp hs,
    isBlank_ofScalars fun s hs => List.mem_rtakeWhile_imp hs⟩
  have htrim : trim t = ofScalars (rest.rdropWhile Scalar.isBlank) := rfl
  rw [htrim, List.append_assoc, ofScalars, ofScalars, ofScalars,
    ← List.flatMap_append, List.rdropWhile_append_rtakeWhile,
    ← List.flatMap_append, List.takeWhile_append_dropWhile]
  exact (ofScalars_scalars t).symm

/-- A byte that is a visible character on its own. -/
def isInk (b : UInt8) : Bool :=
  b.toNat < 0x80 && !(Scalar.char (Char.ofNat b.toNat)).isBlank

theorem Spells.isInk
    {base d : Nat} {b : UInt8} (hbase : base ≤ 16) (h : Spells base b d) :
    isInk b = true := by
  have hall : ∀ d < 16, ∀ b ∈ [digit d, upperByte (digit d)], Text.isInk b =
    true := by decide +kernel
  exact hall d (Nat.lt_of_lt_of_le h.1 hbase) b (by simpa using h.2)

theorem trim_append
    {front core back : Text} (hfront : isBlank front = true)
    (hback : isBlank back = true) (hne : core ≠ [])
    (hcore : ∀ b ∈ core, isInk b = true) :
    trim (front ++ core ++ back) = core := by
  have hink : ∀ b ∈ core, b.toNat < 0x80 ∧
      (Scalar.char (Char.ofNat b.toNat)).isBlank = false := by
    intro b hb
    simpa [isInk] using hcore b hb
  have hread : scalars (core ++ back) = scalars core ++ scalars back := by
    have hwell := isWellFormed_of_ascii fun b hb => (hink b hb).1
    rw [← ofChars_chars hwell, scalars_ofChars_append, scalars_ofChars]
  have hvisible : ∀ s ∈ scalars core, s.isBlank = false := by
    rw [scalars_of_ascii fun b hb => (hink b hb).1]
    exact List.forall_mem_map.2 fun b hb => (hink b hb).2
  have hsome : scalars core ≠ [] := by
    intro hnil
    exact hne (by rw [← ofScalars_scalars core, hnil]; rfl)
  rw [trim, List.append_assoc, scalars_append_of_isBlank hfront, hread,
    List.dropWhile_append_of_pos (List.all_eq_true.1 hfront)]
  obtain ⟨s, ss, hcons⟩ := List.exists_cons_of_ne_nil hsome
  obtain ⟨ls, l, hconcat⟩ :=
    (List.eq_nil_or_concat' (scalars core)).resolve_left hsome
  have hs : s.isBlank = false := hvisible s (hcons ▸ List.mem_cons_self)
  have hl : l.isBlank = false := hvisible l (hconcat ▸ List.mem_concat_self)
  rw [hcons, List.cons_append, List.dropWhile_cons_of_neg (by simp [hs]),
    ← List.cons_append, ← hcons,
    hconcat, List.reverse_append, List.dropWhile_append_of_pos
    (by simpa using List.all_eq_true.1 hback),
    List.reverse_concat, List.dropWhile_cons_of_neg (by simp [hl]),
    ← List.reverse_concat, List.reverse_reverse, ← hconcat, ofScalars_scalars]

end Text

namespace Document

/-! ## Numerals -/

/-- The text is a numeral of the number: decimal, or hexadecimal behind `0x` or
`0X`. -/
inductive Numeral : Text → Nat → Prop
  | decimal {t : Text} {n : Nat} : Text.Denotes 10 t n → Numeral t n
  | hexadecimal {x : UInt8} {t : Text} {n : Nat} :
      x = 0x78 ∨ x = 0x58 → Text.Denotes 16 t n → Numeral (0x30 :: x :: t) n

/-- The number that the value of an entry denotes, of any size. -/
def entryNumber? (t : Text) : Option Nat :=
  match Text.stripFront? "0x" t, Text.stripFront? "0X" t with
  | some digits, _ => Text.natOfDigits? 16 digits
  | none, some digits => Text.natOfDigits? 16 digits
  | none, none => Text.natOfDigits? 10 t

theorem entryValue?_eq_bind (raw : Text) :
    entryValue? raw =
      (entryNumber? (Text.trim raw)).bind fun n =>
      if n < 2 ^ 32 then some (UInt32.ofNat n) else none := by
  unfold entryValue?
  dsimp only
  split
  next n hn =>
    rw [show entryNumber? (Text.trim raw) = some n from hn]
    rfl
  next hn =>
    rw [show entryNumber? (Text.trim raw) = none from hn]
    rfl

variable {t : Text} {n : Nat} {x : UInt8}

theorem not_denotes_ten (hx : x = 0x78 ∨ x = 0x58) (t : Text) (n : Nat) :
    ¬Text.Denotes 10 (0x30 :: x :: t) n := by
  intro h
  obtain ⟨d, hd⟩ := h.exists_spells x (by simp)
  rw [Text.spells_iff (by decide)] at hd
  rcases hx with rfl | rfl <;> cases hd.1

theorem numeral_hexadecimal_iff (hx : x = 0x78 ∨ x = 0x58) :
    Numeral (0x30 :: x :: t) n ↔ Text.natOfDigits? 16 t = some n := by
  rw [Text.natOfDigits?_eq_some_iff (by decide)]
  constructor
  · rintro (h | ⟨-, h⟩)
    · exact absurd h (not_denotes_ten hx t n)
    · exact h
  · exact .hexadecimal hx

theorem entryNumber?_eq_some_iff :
    entryNumber? t = some n ↔ Numeral t n := by
  unfold entryNumber?
  cases hlower : Text.stripFront? "0x" t with
  | some digits =>
    rw [Text.stripFront?_eq_some_iff.1 hlower]
    exact (numeral_hexadecimal_iff (.inl rfl)).symm
  | none =>
    cases hupper : Text.stripFront? "0X" t with
    | some digits =>
      rw [Text.stripFront?_eq_some_iff.1 hupper]
      exact (numeral_hexadecimal_iff (.inr rfl)).symm
    | none =>
      rw [Text.natOfDigits?_eq_some_iff (by decide)]
      constructor
      · exact .decimal
      · rintro (h | ⟨rfl | rfl, -⟩)
        · exact h
        · cases hlower
        · cases hupper

theorem Numeral.isInk (h : Numeral t n) :
    t ≠ [] ∧ ∀ b ∈ t, Text.isInk b = true := by
  have hdigits : ∀ {base : Nat} {t : Text} {n : Nat}, base ≤ 16 →
      Text.Denotes base t n →
      ∀ b ∈ t, Text.isInk b = true := by
    intro base t n hbase h b hb
    obtain ⟨d, hd⟩ := h.exists_spells b hb
    exact hd.isInk hbase
  cases h with
  | decimal h => exact ⟨h.1, hdigits (by decide) h⟩
  | hexadecimal hx h =>
    have hmark : Text.isInk 0x30 = true ∧ Text.isInk 0x78 = true ∧
        Text.isInk 0x58 = true := by
      decide +kernel
    refine ⟨List.cons_ne_nil _ _, List.forall_mem_cons.2
      ⟨hmark.1, List.forall_mem_cons.2 ⟨?_, ?_⟩⟩⟩
    · rcases hx with rfl | rfl
      · exact hmark.2.1
      · exact hmark.2.2
    · exact hdigits (by decide) h

structure ReadExactly (raw : Text) : Prop where
  some_iff : ∀ v : UInt32, entryValue? raw = some v ↔
    Numeral (Text.trim raw) v.toNat
  /-- Nothing wraps around. -/
  none_of_le : ∀ n, Numeral (Text.trim raw) n → 2 ^ 32 ≤ n → entryValue? raw =
    none
  /-- Trimming takes away white space, and nothing but white space. -/
  trim_iff : ∀ t n, Numeral t n → (Text.trim raw = t ↔
    ∃ front back, raw = front ++ t ++ back ∧ Text.isBlank front = true ∧
    Text.isBlank back = true)

/-- The value of an entry is read as a word exactly if it is a numeral of that
word with white space around it. -/
theorem readExactly_entryValue (raw : Text) :
    ReadExactly raw := by
  constructor
  case some_iff =>
    intro v
    rw [entryValue?_eq_bind, ← entryNumber?_eq_some_iff,
      Option.bind_eq_some_iff]
    constructor
    · rintro ⟨n, hn, hv⟩
      obtain ⟨hlt, hv⟩ := Option.ite_none_right_eq_some.1 hv
      rwa [← Option.some.inj hv, UInt32.toNat_ofNat_of_lt' hlt]
    · intro hn
      exact ⟨v.toNat, hn, by rw [if_pos v.toNat_lt, UInt32.ofNat_toNat]⟩
  case none_of_le =>
    intro n hn hle
    rw [entryValue?_eq_bind, entryNumber?_eq_some_iff.2 hn, Option.bind_some,
      if_neg (Nat.not_lt.2 hle)]
  case trim_iff =>
    intro t n ht
    constructor
    · rintro rfl
      exact Text.exists_trim_eq raw
    · rintro ⟨front, back, rfl, hfront, hback⟩
      exact Text.trim_append hfront hback ht.isInk.1 ht.isInk.2

example :
    ["\u00a0007\n", "0XfF", "4294967295", "4294967296", "0x", "+1", "1_0"].map
    (fun s =>
      entryValue? (Text.ofString s)) =
      [some 7, some 255, some 0xFFFFFFFF, none, none, none, none] := by
  decide +kernel

end Document

end ProtocolCorpus
