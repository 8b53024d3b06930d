import ProtocolCorpus.Proofs.Numerals
import ProtocolCorpus.Proofs.Parts
import ProtocolCorpus.Proofs.Path
import ProtocolCorpus.Proofs.Yaml.Styles

/-!
# What words mean

The name of a field is written plainly and reads as a text, and a number means
itself.
-/

namespace ProtocolCorpus

namespace Yaml

variable {b : UInt8} {t k : Text} {n : Nat}

/-- A byte of a word: a digit, a lower-case letter or an underscore. -/
def isWordByte (b : UInt8) : Bool :=
  Text.isDigit b || Text.isLower b || b == 0x5F

theorem isWordByte_iff :
    isWordByte b = true ↔
      (0x30 ≤ b.toNat ∧ b.toNat ≤ 0x39) ∨ (0x61 ≤ b.toNat ∧ b.toNat ≤ 0x7A) ∨
      b.toNat = 0x5F := by
  simp only [isWordByte, Text.isDigit, Text.isLower, Bool.or_eq_true,
    Bool.and_eq_true, decide_eq_true_eq, beq_iff_eq, UInt8.le_iff_toNat_le,
    ← UInt8.toNat_inj, UInt8.reduceToNat, or_assoc]

theorem chars_of_isWordByte (h : ∀ b ∈ t, isWordByte b = true) :
    Text.chars t = t.map fun b => Char.ofNat b.toNat := by
  refine Text.chars_of_ascii ?_
  intro b hb
  have hword := isWordByte_iff.1 (h b hb)
  omega

theorem map_toNat_chars (h : ∀ b ∈ t, isWordByte b = true) :
    (Text.chars t).map Char.toNat = t.map UInt8.toNat := by
  rw [chars_of_isWordByte h, List.map_map]
  refine List.map_congr_left ?_
  intro b hb
  have hword := isWordByte_iff.1 (h b hb)
  exact Scalar.val_ofNat (.inl (by omega))

theorem isIndicator_eq_false (h : isWordByte b = true)
    (before after : Option Nat) :
    isIndicator before b.toNat after = false := by
  have hword := isWordByte_iff.1 h
  cases before with
  | none =>
    simp [isIndicator, isLeadingIndicator]
    omega
  | some m =>
    simp [isIndicator]
    omega

/-- The characters of words are neither blanks nor line ends, and words mean
no structure. -/
theorem isPrintable_of_isWordByte (h : ∀ b ∈ t, isWordByte b = true) {c : Char}
    (hc : c ∈ Text.chars t) :
    isPrintable c.toNat = true ∧ isBreakCode c.toNat = false ∧ c ≠ ' ' ∧
      c ≠ ':' := by
  have hcode := List.mem_map_of_mem (f := Char.toNat) hc
  rw [map_toNat_chars h, List.mem_map] at hcode
  obtain ⟨b, hb, hcode⟩ := hcode
  have hword := isWordByte_iff.1 (h b hb)
  rw [hcode] at hword
  refine ⟨?_, ?_, ?_, ?_⟩
  · simp [isPrintable]
    omega
  · simp [isBreakCode]
    omega
  · rintro rfl
    revert hword
    decide
  · rintro rfl
    revert hword
    decide

theorem plainText_of_isWordByte (h : ∀ b ∈ t, isWordByte b = true) :
    PlainText none (Text.chars t) where
  ordinary c hc := by
    have hprintable := isPrintable_of_isWordByte h hc
    exact ⟨hprintable.1, hprintable.2.1⟩
  unmarked := by
    rw [map_toNat_chars h]
    apply anyAt_eq_false
    intro n hn before after
    obtain ⟨b, hb, rfl⟩ := List.mem_map.1 hn
    exact isIndicator_eq_false (h b hb) before after
  head hhead :=
    (isPrintable_of_isWordByte h (List.mem_of_head? hhead)).2.2.1 rfl
  last hlast :=
    (isPrintable_of_isWordByte h (List.mem_of_getLast? hlast)).2.2.1 rfl

theorem plainText_minus (hne : t ≠ []) (h : ∀ b ∈ t, isWordByte b = true) :
    PlainText none ('-' :: Text.chars t) := by
  have hplain := plainText_of_isWordByte h
  obtain ⟨b, t, rfl⟩ := List.exists_cons_of_ne_nil hne
  obtain ⟨hb, ht⟩ := List.forall_mem_cons.1 h
  refine ⟨List.forall_mem_cons.2 ⟨by decide, hplain.ordinary⟩, ?_, by simp, ?_⟩
  · have hword := isWordByte_iff.1 hb
    have hdash : isIndicator none 0x2D (some b.toNat) = false := by
      simp [isIndicator, isLeadingIndicator, isBlankCode]
      omega
    rw [List.map_cons, map_toNat_chars h, anyAt]
    refine Bool.or_eq_false_iff.2 ⟨hdash, anyAt_eq_false ?_ _⟩
    intro n hn before after
    obtain ⟨c, hc, rfl⟩ := List.mem_map.1 hn
    exact isIndicator_eq_false (h c hc) before after
  · rw [chars_of_isWordByte h] at hplain ⊢
    exact hplain.last

/-! ## Names of fields -/

theorem isWordByte_of_isFieldName (hk : isFieldName k = true) (hb : b ∈ k) :
    isWordByte b = true := by
  rw [isFieldName, isPlainKey, Bool.and_eq_true, Bool.and_eq_true,
    List.all_eq_true] at hk
  have hbyte := hk.1.2 b hb
  rw [isWordByte, Text.isLower, Bool.or_assoc, hbyte, Bool.or_true]

theorem isWellFormed_of_isFieldName (hk : isFieldName k = true) :
    Text.isWellFormed k = true := by
  apply Text.isWellFormed_of_ascii
  intro b hb
  have hword := isWordByte_iff.1 (isWordByte_of_isFieldName hk hb)
  omega

theorem plainText_of_isFieldName (hk : isFieldName k = true) :
    PlainText none (Text.chars k) :=
  plainText_of_isWordByte fun _ hb => isWordByte_of_isFieldName hk hb

theorem readsAsText_of_isFieldName (hk : isFieldName k = true) :
    readsAsText k = true := by
  -- None of the words with a meaning is the name of a field.
  have hfree : ∀ ws : List Text, ws.all (fun w => !isFieldName w) = true →
      k ∉ ws := by
    intro ws hws hmem
    have hfield := List.all_eq_true.1 hws k hmem
    rw [hk] at hfield
    exact Bool.noConfusion hfield
  have hlookup : words.lookup k = none := by
    rw [List.lookup_eq_none_iff]
    intro w hw
    have hword := hfree (words.map Prod.fst) (by decide)
    refine bne_iff_ne.2 ?_
    rintro rfl
    exact hword (List.mem_map_of_mem hw)
  have hbyte : ∀ b ∈ k, (0x61 ≤ b.toNat ∧ b.toNat ≤ 0x7A) ∨ b.toNat = 0x5F := by
    intro b hb
    rw [isFieldName, isPlainKey, Bool.and_eq_true, Bool.and_eq_true,
      List.all_eq_true] at hk
    have hplain := hk.1.2 b hb
    simpa [UInt8.le_iff_toNat_le, ← UInt8.toNat_inj] using hplain
  have hnot : ∀ c : UInt8, c.toNat < 0x5F → c ∉ k := by
    intro c hc hmem
    have hplain := hbyte c hmem
    omega
  have hmeaning : meaning k = .text := by
    cases k with
    | nil => exact absurd hk (by decide)
    | cons b k =>
      have hb := hbyte b List.mem_cons_self
      have hdigit : (Text.isDigit b || b = 0x2B || b = 0x2D) = false := by
        simp [Text.isDigit, UInt8.le_iff_toNat_le, ← UInt8.toNat_inj]
        omega
      have hpoint : b ≠ 0x2E := by
        rintro rfl
        revert hb
        decide
      rw [meaning, hlookup, hdigit, if_neg Bool.noConfusion, if_neg hpoint]
      rfl
  have hsixty : isSexagesimal k = false := by
    have hsign : cutSign k = (false, k) := by
      unfold cutSign
      split
      · exact absurd List.mem_cons_self (hnot 0x2B (by decide))
      · exact absurd List.mem_cons_self (hnot 0x2D (by decide))
      · rfl
    rw [isSexagesimal, hsign]
    dsimp only
    rw [Text.cut_eq_none_iff.2 (hnot 0x2E (by decide))]
    dsimp only [Option.getD_none]
    rw [Text.splitOn_eq_singleton (hnot 0x3A (by decide))]
  have htrue := hfree oldTrue (by decide)
  have hfalse := hfree oldFalse (by decide)
  rw [readsAsText, hmeaning, hsixty]
  simp [htrue, hfalse]

/-- Words show none of the features that keep a text from being written as it
is. -/
theorem ofCodes_of_isWordByte (h : ∀ b ∈ t, isWordByte b = true)
    (before : Option Nat) (f : Features) :
    Features.ofCodes before (t.map UInt8.toNat) f = f := by
  induction t generalizing before with
  | nil => rfl
  | cons b t ih =>
    obtain ⟨hb, ht⟩ := List.forall_mem_cons.1 h
    have hword := isWordByte_iff.1 hb
    have hprintable : isPrintable b.toNat = true := by
      simp [isPrintable]
      omega
    have hbreak : isBreakCode b.toNat = false := by
      simp [isBreakCode]
      omega
    have hblank : b.toNat ≠ 0x20 := by omega
    have htab : b.toNat ≠ 0x09 := by omega
    have hsee : ∀ after, f.see before b.toNat after = f := by
      intro after
      simp [Features.see, isIndicator_eq_false hb, hprintable, hbreak, hblank,
        htab]
    rw [List.map_cons, Features.ofCodes, hsee, ih ht]

theorem style_of_isFieldName (hk : isFieldName k = true) :
    style (readsAsText k) k = .plain := by
  have hword : ∀ b ∈ k, isWordByte b = true := fun b hb =>
    isWordByte_of_isFieldName hk hb
  have hnot : ∀ c : UInt8, isWordByte c = false → c ∉ k := by
    intro c hc hmem
    rw [hword c hmem] at hc
    exact Bool.noConfusion hc
  have hstart : ∀ p : Text, (0x2D ∈ p ∨ 0x2E ∈ p) → Text.startsWith k p =
      false := by
    intro p hp
    rw [Text.startsWith, Option.isSome_eq_false_iff, Option.isNone_iff_eq_none,
      Option.eq_none_iff_forall_ne_some]
    intro rest hrest
    rw [Text.stripFront?_eq_some_iff] at hrest
    rcases hp with hdash | hpoint
    · exact hnot 0x2D rfl (hrest ▸ List.mem_append_left rest hdash)
    · exact hnot 0x2E rfl (hrest ▸ List.mem_append_left rest hpoint)
  have hfeatures : features k = {} := by
    have hcodes : Text.codes k = k.map UInt8.toNat := by
      have hform : Text.isWellFormed k = true := by
        apply Text.isWellFormed_of_ascii
        intro b hb
        have hcode := isWordByte_iff.1 (hword b hb)
        omega
      rw [codes_eq_map_toNat hform, map_toNat_chars hword]
    rw [features, hcodes, ofCodes_of_isWordByte hword, hstart "---" (by decide),
      hstart "..." (by decide)]
    rfl
  have hline : List.contains k 0x0A = false := by
    rw [← Bool.not_eq_true, List.contains_iff_mem]
    exact hnot 0x0A rfl
  rw [style, hline, hfeatures, readsAsText_of_isFieldName hk]
  simp [Features.allowPlain, Features.allowSingle]

/-! ## Numbers -/

theorem lookup_words_eq_none (hb : b ∈ t) (hdigit : Text.isDigit b = true) :
    words.lookup t = none := by
  rw [List.lookup_eq_none_iff]
  intro w hw
  refine bne_iff_ne.2 ?_
  rintro rfl
  have hfree : words.all (fun w => w.1.all fun b => !Text.isDigit b) =
    true := by decide
  have hbyte := List.all_eq_true.1 (List.all_eq_true.1 hfree w hw) b hb
  rw [hdigit] at hbyte
  exact Bool.noConfusion hbyte

theorem isTimestamp_eq_false (ht : ∀ b ∈ t, Text.isDigit b = true) :
    isTimestamp t = false := by
  have hdigits : t.takeWhile Text.isDigit = t := by
    have hall : (t ++ []).takeWhile Text.isDigit = t ++ [] :=
      List.takeWhile_append_of_pos ht
    simpa using hall
  have hdate : Timestamp.dropDate? false t = none := by
    rw [Timestamp.dropDate?, hdigits]
    by_cases hlength : t.length = 4
    · have hrest : t.drop 4 = [] := List.drop_eq_nil_of_le (by omega)
      rw [if_pos hlength, hrest]
      cases Text.natOfDigits? 10 t <;> rfl
    · rw [if_neg hlength]
      rfl
  rw [isTimestamp, hdate]

theorem cutBase_ofNat (n : Nat) :
    cutBase (Text.ofNat n) = (10, Text.ofNat n) := by
  obtain ⟨b, t, heq, -, hzero, -⟩ := Text.exists_ofNat_eq_cons n
  rw [heq]
  unfold cutBase
  split
  next hcons =>
    obtain ⟨rfl, rfl⟩ := List.cons.inj hcons
    cases (hzero rfl).2
  · rfl

theorem integer?_ofNat (hn : n < 2 ^ 63) :
    integer? (Text.ofNat n) = some (n : Int) := by
  obtain ⟨b, t, heq, hb, -⟩ := Text.exists_ofNat_eq_cons n
  have hsign : cutSign (Text.ofNat n) = (false, Text.ofNat n) := by
    rw [heq]
    unfold cutSign
    split
    next hcons =>
      obtain ⟨rfl, -⟩ := List.cons.inj hcons
      cases hb
    next hcons =>
      obtain ⟨rfl, -⟩ := List.cons.inj hcons
      cases hb
    · rfl
  have hfit : fit? false false n = some (n : Int) := by
    rw [fit?, if_neg Bool.noConfusion]
    exact if_pos (by rw [if_neg Bool.noConfusion]; omega)
  unfold integer?
  rw [hsign]
  dsimp only
  rw [cutBase_ofNat, Text.natOfDigits?_ofNat, Option.bind_some,
    decide_eq_false (Nat.lt_irrefl _), hfit]

theorem integer?_neg (hn : n ≤ 2 ^ 63) :
    integer? (0x2D :: Text.ofNat n) = some (-(n : Int)) := by
  have hfit : ∀ signed, fit? signed true n = some (-(n : Int)) := by
    intro signed
    rw [fit?, if_pos rfl, if_pos (by omega)]
  unfold integer?
  rw [cutSign]
  dsimp only
  rw [cutBase_ofNat, Text.natOfDigits?_ofNat, Option.bind_some, hfit]

theorem numeric_of_integer? {n : Int} (hstamp : isTimestamp t = false)
    (hline : 0x5F ∉ t) (hn : integer? t = some n) :
    numeric t = .int n := by
  have hfilter : t.filter (· != 0x5F) = t := by
    rw [List.filter_eq_self]
    intro b hb
    exact bne_iff_ne.2 (ne_of_mem_of_not_mem hb hline)
  rw [numeric, hstamp, if_neg Bool.noConfusion]
  dsimp only
  rw [hfilter, hn]

/-- A number means itself. -/
theorem meaning_ofInt
    {n : Int} (hlow : -2 ^ 63 ≤ n) (hhigh : n < 2 ^ 63) :
    meaning (Text.ofInt n) = .int n := by
  have hline : ∀ m, 0x5F ∉ Text.ofNat m := by
    intro m hmem
    exact Bool.noConfusion (Text.isDigit_of_mem_ofNat hmem)
  cases n with
  | ofNat n =>
    have hsmall : (n : Int) < 2 ^ 63 := hhigh
    have hnumber : numeric (Text.ofNat n) = .int n :=
      numeric_of_integer? (isTimestamp_eq_false fun _ =>
        Text.isDigit_of_mem_ofNat) (hline n)
        (integer?_ofNat (by omega))
    obtain ⟨b, t, heq, hb, -⟩ := Text.exists_ofNat_eq_cons n
    change meaning (Text.ofNat n) = _
    rw [heq] at hnumber ⊢
    rw [meaning, lookup_words_eq_none List.mem_cons_self hb, hb, Bool.true_or,
      Bool.true_or, if_pos rfl, Option.getD_none, if_pos rfl, hnumber]
    rfl
  | negSucc n =>
    have hsmall : n + 1 ≤ 2 ^ 63 := by omega
    obtain ⟨b, t, heq, hb, -⟩ := Text.exists_ofNat_eq_cons (n + 1)
    have hmem : b ∈ (0x2D :: Text.ofNat (n + 1) : Text) := by
      rw [heq]
      exact List.mem_cons_of_mem _ List.mem_cons_self
    have hnumber : numeric (0x2D :: Text.ofNat (n + 1)) =
        .int (-((n + 1 : Nat) : Int)) := by
      refine numeric_of_integer? rfl ?_ (integer?_neg hsmall)
      rw [List.mem_cons, not_or]
      exact ⟨by decide, hline (n + 1)⟩
    change meaning (0x2D :: Text.ofNat (n + 1)) = _
    rw [meaning, lookup_words_eq_none hmem hb, if_pos (by rfl),
      Option.getD_none, if_pos rfl, hnumber]
    rfl

theorem plainText_ofInt (n : Int) :
    PlainText none (Text.chars (Text.ofInt n)) := by
  have hword : ∀ m, ∀ b ∈ Text.ofNat m, isWordByte b = true := by
    intro m b hb
    rw [isWordByte, Text.isDigit_of_mem_ofNat hb, Bool.true_or, Bool.true_or]
  cases n with
  | ofNat n => exact plainText_of_isWordByte (hword n)
  | negSucc n =>
    have hminus : Text.chars (Text.ofInt (.negSucc n)) =
      '-' :: Text.chars (Text.ofNat (n + 1)) :=
      Text.chars_append rfl _
    rw [hminus]
    exact plainText_minus (Text.ofNatBase_ne_nil 10 (n + 1)) (hword (n + 1))

end Yaml

end ProtocolCorpus
