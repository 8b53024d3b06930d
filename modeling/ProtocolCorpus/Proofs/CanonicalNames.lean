import Mathlib.Data.FinEnum
import ProtocolCorpus.Proofs.Identifier
import ProtocolCorpus.Proofs.Scalars

/-!
# Canonical identifiers

An identifier is empty, or it is a row of words with single underscores between
them and one more in front if the first word starts with a digit. This does not
depend on how characters are decomposed. Such a text is its own identifier if
ASCII characters are not decomposed: its words are written again byte by byte,
an underscore between two words leaves a gap that is written before the next
one, and the underscore in front leaves a gap with nothing before it.
-/

namespace ProtocolCorpus

namespace Naming

variable {w : Text} {ws : List Text} {s : Spelling} {b : UInt8}

/-- The text is empty, or words with single underscores between them and one
more underscore in front exactly if the first word starts with a digit. -/
def Canonical (t : Text) : Prop :=
  t = [] ∨ ∃ w ws, (∀ v ∈ w :: ws, IsWord v) ∧
    t = (if startsWithDigit w then [underscore] else []) ++
      Text.join [underscore] (w :: ws)

theorem ofWords_cons (hw : w ≠ []) (ws : List Text) :
    ofWords (w :: ws) = (if startsWithDigit w then [underscore] else []) ++
      Text.join [underscore] (w :: ws) := by
  have hfirst : startsWithDigit (Text.join "_" (w :: ws)) =
      startsWithDigit w := by
    rw [startsWithDigit, Text.head?_join "_" hw, startsWithDigit]
  rw [ofWords, guardDigit, hfirst]
  split
  · rfl
  · rfl

theorem canonical_iff_exists_ofWords {t : Text} :
    Canonical t ↔ ∃ ws, (∀ w ∈ ws, IsWord w) ∧ t = ofWords ws := by
  constructor
  · rintro (rfl | ⟨w, ws, hws, rfl⟩)
    · exact ⟨[], by simp, rfl⟩
    · have hw := hws w List.mem_cons_self
      exact ⟨w :: ws, hws, (ofWords_cons hw.nonempty ws).symm⟩
  · rintro ⟨ws, hws, rfl⟩
    cases ws with
    | nil => exact .inl rfl
    | cons w ws =>
      have hw := hws w List.mem_cons_self
      exact .inr ⟨w, ws, hws, ofWords_cons hw.nonempty ws⟩

/-! ## Spelling words -/

theorem wordByte?_of_isWordByte :
    ∀ b : UInt8, isWordByte b = true → wordByte? b.toNat = some b := by
  decide +kernel

theorem isMarkCode_toNat (b : UInt8) :
    isMarkCode b.toNat = false := by
  have hlt : b.toNat < 0x300 := by
    have := b.toNat_lt
    omega
  rw [isMarkCode, if_pos hlt]

/-- What is written before the next word. -/
def Spelling.link (s : Spelling) : Text :=
  if s.gap && !s.written.isEmpty then [underscore] else []

theorem Spelling.read_of_isWordByte (s : Spelling) (hb : isWordByte b = true) :
    s.read b.toNat = { written := s.written ++ s.link ++ [b] } := by
  rw [Spelling.read, isMarkCode_toNat, wordByte?_of_isWordByte b hb, link]
  by_cases hgap : (s.gap && !s.written.isEmpty) = true
  · simp [hgap]
  · simp [hgap]

theorem Spelling.read_underscore (s : Spelling) :
    s.read underscore.toNat = { s with gap := true } := by
  have hnone : wordByte? underscore.toNat = none := by decide
  rw [Spelling.read, isMarkCode_toNat, hnone]
  rfl

/-- A word is written as it is, behind an underscore if there was a gap. -/
theorem foldl_read_word (hw : IsWord w) (s : Spelling) :
    (w.map UInt8.toNat).foldl Spelling.read s =
      { written := s.written ++ s.link ++ w } := by
  obtain ⟨hne, hbytes⟩ := hw
  induction w generalizing s with
  | nil => exact absurd rfl hne
  | cons b w ih =>
    obtain ⟨hb, hrest⟩ := List.forall_mem_cons.1 hbytes
    rw [List.map_cons, List.foldl_cons, s.read_of_isWordByte hb]
    cases w with
    | nil => rfl
    | cons c w =>
      rw [ih _ (List.cons_ne_nil c w) hrest]
      simp [Spelling.link]

/-- So is a row of words, each of which leaves a gap behind it. -/
theorem foldl_read_join (hws : ∀ v ∈ w :: ws, IsWord v) (s : Spelling) :
    ((Text.join "_" (w :: ws)).map UInt8.toNat).foldl Spelling.read s =
      { written := s.written ++ s.link ++ Text.join "_" (w :: ws) } := by
  induction ws generalizing w s with
  | nil => exact foldl_read_word (hws w List.mem_cons_self) s
  | cons v ws ih =>
    obtain ⟨hw, hrest⟩ := List.forall_mem_cons.1 hws
    rw [join_cons_cons, List.map_append, List.foldl_append, foldl_read_word hw,
      List.map_cons, List.foldl_cons, Spelling.read_underscore, ih hrest]
    simp [Spelling.link, hw.nonempty]

/-- The bytes of a canonical text spell the text. -/
theorem spell_ofWords (hws : ∀ w ∈ ws, IsWord w) :
    spell ((ofWords ws).map UInt8.toNat) = ofWords ws := by
  cases ws with
  | nil => rfl
  | cons w ws =>
    have hwritten : (((ofWords (w :: ws)).map UInt8.toNat).foldl Spelling.read
        {}).written = Text.join "_" (w :: ws) := by
      rw [ofWords, guardDigit]
      split
      · rw [List.map_cons, List.foldl_cons, Spelling.read_underscore,
          foldl_read_join hws]
        rfl
      · rw [foldl_read_join hws]
        rfl
    exact congrArg guardDigit hwritten

theorem isNameByte_of_mem_ofWords (hws : ∀ w ∈ ws, IsWord w)
    (hb : b ∈ ofWords ws) :
    isNameByte b = true := by
  rw [ofWords, guardDigit] at hb
  split at hb
  · rcases List.mem_cons.1 hb with rfl | hb
    · rfl
    · exact isNameByte_of_mem_join hws hb
  · exact isNameByte_of_mem_join hws hb

theorem lt_of_isNameByte :
    ∀ b : UInt8, isNameByte b = true → b < 0x80 := by
  decide +kernel

/-! ## Identifiers -/

/-- Texts of ASCII characters are not decomposed. -/
def KeepsAscii (decompose : Text → List Nat) : Prop :=
  ∀ t : Text, (∀ b ∈ t, b < 0x80) → decompose t = t.map UInt8.toNat

theorem keepsAscii_decomposition :
    KeepsAscii Text.decomposition := by
  intro t ht
  have hlt : ∀ b ∈ t, b.toNat < 0x80 := fun b hb =>
    UInt8.lt_iff_toNat_lt.1 (ht b hb)
  have hbyte : ∀ b : UInt8, b < 0x80 →
      (Scalar.char (Char.ofNat b.toNat)).decomposition = [b.toNat] := by
    decide +kernel
  rw [Text.decomposition, Text.scalars_of_ascii hlt, List.flatMap_map]
  calc
    (t.flatMap fun b => (Scalar.char (Char.ofNat b.toNat)).decomposition) =
        t.flatMap fun b => [b.toNat] :=
      List.flatMap_congr fun b hb => hbyte b (ht b hb)
    _ = t.map UInt8.toNat := List.flatMap_pure_eq_map _ t

/-- Every text is made canonical, and what is canonical is kept, so that a
second pass changes nothing. -/
structure Canonizes (make : Text → Text) : Prop where
  canonical : ∀ t, Canonical (make t)
  kept : ∀ t, Canonical t → make t = t
  again : ∀ t, make (make t) = make t

theorem canonizes_identifierBy {decompose : Text → List Nat}
    (hascii : KeepsAscii decompose) :
    Canonizes (identifierBy decompose) := by
  have hcanonical : ∀ t, Canonical (identifierBy decompose t) := fun t =>
    canonical_iff_exists_ofWords.2 (exists_spell_eq_ofWords (decompose t))
  have hkept : ∀ t, Canonical t → identifierBy decompose t = t := by
    intro t ht
    obtain ⟨ws, hws, rfl⟩ := canonical_iff_exists_ofWords.1 ht
    have hbytes : ∀ b ∈ ofWords ws, b < 0x80 := fun b hb =>
      lt_of_isNameByte b (isNameByte_of_mem_ofWords hws hb)
    rw [identifierBy, hascii _ hbytes, spell_ofWords hws]
  exact ⟨hcanonical, hkept, fun t => hkept _ (hcanonical t)⟩

/-- Identifiers are canonical however characters beyond ASCII are decomposed,
and so are those of the decomposition in use. -/
theorem canonizes_identifier :
    (∀ decompose, KeepsAscii decompose → Canonizes (identifierBy decompose)) ∧
      Canonizes identifier :=
  ⟨fun _ hascii => canonizes_identifierBy hascii,
    canonizes_identifierBy keepsAscii_decomposition⟩

/-- A mark, a letter with an accent and a ligature are taken apart, and the
identifier that comes out is kept. -/
theorem canonizes_engine :
    KeepsAscii Text.decomposition ∧
      identifier "3Dﾞ--Éﬃgy" = "_3d_effigy" ∧
      Canonical (identifier "3Dﾞ--Éﬃgy") ∧
      identifierBy Text.decomposition "_3d_effigy" = "_3d_effigy" := by
  have hmade : identifier "3Dﾞ--Éﬃgy" = "_3d_effigy" := by decide +kernel
  have hlaws :=
    canonizes_identifier.1 Text.decomposition keepsAscii_decomposition
  have hcanonical := canonizes_identifier.2.canonical "3Dﾞ--Éﬃgy"
  refine ⟨keepsAscii_decomposition, hmade, hcanonical, hlaws.kept _ ?_⟩
  rw [← hmade]
  exact hcanonical

end Naming

end ProtocolCorpus
