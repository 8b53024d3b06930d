import ProtocolCorpus.Proofs.Regular
import ProtocolCorpus.Proofs.Scalars
import ProtocolCorpus.Yaml.Cursor
import ProtocolCorpus.Yaml.Printer

/-!
# What the style of a text says about its characters

The style is chosen by features that a pass over the text collects. Here each
feature is a property of the row of characters, so that a style gives back what
a reader of that style needs to know.
-/

namespace ProtocolCorpus

namespace Yaml

variable {p : Option Nat → Nat → Option Nat → Bool} {ns : List Nat}

/-- Some number of the row, seen with its neighbours, has the property. -/
def anyAt (p : Option Nat → Nat → Option Nat → Bool)
    (before : Option Nat) : List Nat → Bool
  | [] => false
  | n :: ns => p before n ns.head? || anyAt p (some n) ns

theorem anyAt_eq_false_of_append {before : Option Nat} {ms : List Nat}
    (h : anyAt p before (ms ++ ns) = false) :
    anyAt p (ms.getLast?.or before) ns = false := by
  induction ms generalizing before with
  | nil => exact h
  | cons m ms ih =>
    rw [List.cons_append, anyAt, Bool.or_eq_false_iff] at h
    have hrest := ih h.2
    cases ms with
    | nil => exact hrest
    | cons n ms =>
      rw [List.getLast?_cons_cons]
      rwa [List.getLast?_cons, Option.some_or] at hrest ⊢

theorem anyAt_eq_any
    (q : Nat → Bool) (before : Option Nat) (ns : List Nat) :
    anyAt (fun _ n _ => q n) before ns = ns.any q := by
  induction ns generalizing before with
  | nil => rfl
  | cons n ns ih => rw [anyAt, ih, List.any_cons]

theorem anyAt_eq_false (h : ∀ n ∈ ns, ∀ before after, p before n after = false)
    (before : Option Nat) :
    anyAt p before ns = false := by
  induction ns generalizing before with
  | nil => rfl
  | cons n ns ih =>
    rw [List.forall_mem_cons] at h
    rw [anyAt, h.1, ih h.2, Bool.or_false]

/-- A number at the end of the row has no neighbour behind it. -/
theorem getLast?_ne_of_anyAt {m : Nat} {before : Option Nat}
    (h : anyAt (fun _ n after => decide (n = m) && after.isNone) before ns =
      false) :
    ns.getLast? ≠ some m := by
  induction ns generalizing before with
  | nil => simp
  | cons n ns ih =>
    rw [anyAt, Bool.or_eq_false_iff] at h
    cases ns with
    | nil => simpa using h.1
    | cons k ns =>
      rw [List.getLast?_cons_cons]
      exact ih h.2

/-- A feature that grows by what each character shows is what some character
shows. -/
theorem ofCodes_eq_anyAt (feature : Features → Bool)
    (hsee : ∀ f before n after, feature (f.see before n after) =
      (feature f || p before n after))
    (before : Option Nat) (ns : List Nat) (f : Features) :
    feature (Features.ofCodes before ns f) =
      (feature f || anyAt p before ns) := by
  induction ns generalizing before f with
  | nil => rw [Features.ofCodes, anyAt, Bool.or_false]
  | cons n ns ih => rw [Features.ofCodes, ih, hsee, anyAt, Bool.or_assoc]

/-- A blank behind a line end, or a line end behind a blank. -/
def isLooseBlank (before : Option Nat) (n : Nat) (_after : Option Nat) : Bool :=
  (n = 0x20 && (before.map isBreakCode).getD false) ||
    (isBreakCode n && before == some 0x20)

/-- A row of characters behind `before` that can be written as it is, without
quotes. -/
structure PlainText (before : Option Nat) (cs : List Char) : Prop where
  ordinary : ∀ c ∈ cs, isPrintable c.toNat = true ∧ isBreakCode c.toNat = false
  unmarked : anyAt isIndicator before (cs.map Char.toNat) = false
  head : cs.head? ≠ some ' '
  last : cs.getLast? ≠ some ' '

/-- A row of characters behind `before` that can be written between single
quotes. -/
structure QuotableText (before : Option Nat) (cs : List Char) : Prop where
  printable : ∀ c ∈ cs, isPrintable c.toNat = true ∧ c ≠ '\n'
  tight : anyAt isLooseBlank before (cs.map Char.toNat) = false

/-! ## From the style to the characters -/

section Style

variable {t : Text}

theorem codes_eq_map_toNat
    (ht : Text.isWellFormed t = true) :
    Text.codes t = (Text.chars t).map Char.toNat := by
  have hscalars : Text.scalars t = (Text.chars t).map .char :=
    Scalar.map_char_filterMap_char? ht
  rw [Text.codes, hscalars, List.map_map]
  rfl

/-- A feature that no character shows. -/
theorem anyAt_codes_eq_false
    (feature : Features → Bool) {p : Option Nat → Nat → Option Nat → Bool}
    (hsee : ∀ f before n after, feature (f.see before n after) =
      (feature f || p before n after))
    (hempty : feature {} = false) (ht : Text.isWellFormed t = true)
    (h : feature (Features.ofCodes none (Text.codes t) {}) = false) :
    anyAt p none ((Text.chars t).map Char.toNat) = false := by
  rw [← h, ofCodes_eq_anyAt feature hsee, hempty, Bool.false_or,
    codes_eq_map_toNat ht]

theorem isPrintable_or_eq_tab
    (ht : Text.isWellFormed t = true) (h : (features t).special = false)
    {c : Char} (hc : c ∈ Text.chars t) :
    isPrintable c.toNat = true ∨ c = '\t' := by
  have hany :=
    anyAt_codes_eq_false Features.special (fun _ _ _ _ => rfl) rfl ht h
  rw [anyAt_eq_any, List.any_map, List.any_eq_false] at hany
  have hcode := hany c hc
  by_cases htab : c = '\t'
  · exact .inr htab
  · have hcode' : c.toNat ≠ 0x09 := fun h => htab (Char.toNat_inj.1 h)
    exact .inl (by simpa [hcode'] using hcode)

theorem isPrintable_of_allowSingle
    (ht : Text.isWellFormed t = true) (h : (features t).allowSingle = true)
    {c : Char} (hc : c ∈ Text.chars t) :
    isPrintable c.toNat = true := by
  simp only [Features.allowSingle, Bool.not_eq_true', Bool.or_eq_false_iff] at h
  refine (isPrintable_or_eq_tab ht h.2 hc).resolve_right ?_
  intro htab
  have hany :=
    anyAt_codes_eq_false Features.tabs (fun _ _ _ _ => rfl) rfl ht h.1.2
  rw [anyAt_eq_any, List.any_map, List.any_eq_false] at hany
  exact hany c hc (by rw [htab]; rfl)

theorem plainText_of_allowPlain
    (ht : Text.isWellFormed t = true) (h : (features t).allowPlain = true) :
    PlainText none (Text.chars t) := by
  rw [Features.allowPlain, Bool.and_eq_true] at h
  obtain ⟨hsingle, hrest⟩ := h
  simp only [Bool.not_eq_true', Bool.or_eq_false_iff] at hrest
  obtain ⟨⟨⟨⟨⟨hlead, -⟩, htrail⟩, -⟩, hbreaks⟩, hmarks⟩ := hrest
  have hany :=
    anyAt_codes_eq_false Features.breaks (fun _ _ _ _ => rfl) rfl ht hbreaks
  rw [anyAt_eq_any, List.any_map, List.any_eq_false] at hany
  refine ⟨?_, ?_, ?_, ?_⟩
  · intro c hc
    exact ⟨isPrintable_of_allowSingle ht hsingle hc,
      Bool.eq_false_iff.2 (hany c hc)⟩
  · change ((Features.ofCodes none (Text.codes t) {}).indicators || _ || _) =
      false at hmarks
    rw [Bool.or_eq_false_iff, Bool.or_eq_false_iff] at hmarks
    exact anyAt_codes_eq_false Features.indicators (fun _ _ _ _ => rfl) rfl
      ht hmarks.1.1
  · have hfirst :=
      anyAt_codes_eq_false Features.leadingBlank (fun _ _ _ _ => rfl)
        rfl ht hlead
    intro hhead
    obtain ⟨cs, hcs⟩ := List.head?_eq_some_iff.1 hhead
    rw [hcs] at hfirst
    exact Bool.noConfusion hfirst
  · have hlast := getLast?_ne_of_anyAt
      (anyAt_codes_eq_false Features.trailingBlank (fun _ _ _ _ => rfl)
      rfl ht htrail)
    intro htail
    rw [List.getLast?_map, htail] at hlast
    exact hlast rfl

theorem quotableText_of_allowSingle
    (ht : Text.isWellFormed t = true) (h : (features t).allowSingle = true)
    (hline : List.contains t 0x0A = false) :
    QuotableText none (Text.chars t) := by
  refine ⟨?_, ?_⟩
  · intro c hc
    refine ⟨isPrintable_of_allowSingle ht h hc, ?_⟩
    rintro rfl
    have hbyte : (0x0A : UInt8) ∈ Text.ofChars (Text.chars t) :=
      List.mem_flatMap.2 ⟨'\n', hc, List.mem_singleton.2 rfl⟩
    rw [Text.ofChars_chars ht, ← List.contains_iff_mem, hline] at hbyte
    exact Bool.noConfusion hbyte
  · simp only [Features.allowSingle, Bool.not_eq_true'] at h
    rw [Bool.or_eq_false_iff, Bool.or_eq_false_iff] at h
    refine anyAt_codes_eq_false (fun f => f.blankAfterBreak ||
      f.breakAfterBlank) ?_ rfl ht h.1.1
    intro f before n after
    simp only [Features.see, isLooseBlank, Bool.or_assoc, Bool.or_left_comm]

theorem plainText_of_style
    (ht : Text.isWellFormed t = true) (h : style (readsAsText t) t = .plain) :
    readsAsText t = true ∧ PlainText none (Text.chars t) := by
  unfold style at h
  dsimp only at h
  split at h
  · split at h <;> cases h
  · split at h
    · cases h
    next htext =>
      split at h
      next hplain =>
        rw [Bool.not_eq_true, Bool.not_eq_false'] at htext
        -- The empty text does not read as a text.
        have hne : t.isEmpty = false := by
          cases t with
          | nil => exact absurd htext (by decide)
          | cons b t => rfl
        rw [hne, Bool.false_or] at hplain
        exact ⟨htext, plainText_of_allowPlain ht hplain⟩
      · split at h <;> cases h

theorem quotableText_of_style
    (ht : Text.isWellFormed t = true)
    (h : style (readsAsText t) t = .singleQuoted) :
    QuotableText none (Text.chars t) := by
  unfold style at h
  dsimp only at h
  split at h
  · split at h <;> cases h
  next hline =>
    split at h
    · cases h
    · split at h
      · cases h
      · split at h
        next hsingle =>
          exact quotableText_of_allowSingle ht hsingle
            (Bool.eq_false_iff.2 hline)
        · cases h

theorem isPrintable_or_eq_tab_of_style
    (ht : Text.isWellFormed t = true) (h : style (readsAsText t) t = .literal)
    {c : Char} (hc : c ∈ Text.chars t) :
    isPrintable c.toNat = true ∨ c = '\t' := by
  unfold style at h
  dsimp only at h
  split at h
  · split at h
    next hliteral =>
      simp only [Features.allowLiteral, Bool.not_eq_true', Bool.or_eq_false_iff]
        at hliteral
      exact isPrintable_or_eq_tab ht hliteral.2 hc
    · cases h
  · split at h
    · cases h
    · split at h
      · cases h
      · split at h <;> cases h

end Style

end Yaml

end ProtocolCorpus
