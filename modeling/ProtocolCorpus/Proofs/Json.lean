import ProtocolCorpus.Interchange.Format
import ProtocolCorpus.Proofs.InterchangeRecords
import ProtocolCorpus.Proofs.Numerals
import ProtocolCorpus.Proofs.Parts
import ProtocolCorpus.Proofs.Regular
import ProtocolCorpus.Proofs.Scalars

/-!
# The round trip through JSON

A text is written character by character, and each character is read back from
its escape whatever stands behind it; so is each number if no digit follows.
Blanks and line ends between values are skipped. A corpus of well-formed texts
that was written is read back as it was.
-/

namespace ProtocolCorpus

/-- What formats of text carry: well-formed texts and integers of 64 bits. -/
def Limits.textual : Limits where
  text t := Text.isWellFormed t = true
  int n := -2 ^ 63 ≤ n ∧ n < 2 ^ 63
  length _ := True

namespace Limits

instance : DecidablePred textual.text := fun t =>
    inferInstanceAs (Decidable (Text.isWellFormed t = true))

instance : DecidablePred textual.int := fun n =>
    inferInstanceAs (Decidable (-2 ^ 63 ≤ n ∧ n < 2 ^ 63))

instance : DecidablePred textual.length := fun _ =>
    inferInstanceAs (Decidable True)

end Limits

namespace Json

variable {b : UInt8} {t rest u : Text} {fuel depth : Nat} {d : Datum}

/-! ## Texts -/

theorem ne_of_escaped?_eq_some {e : UInt8} (h : escaped? e = some b) : e ≠
    0x75 := by
  rintro rfl
  cases h

theorem stringRest?_short {e : UInt8} (h : escaped? e = some b) (fuel : Nat)
    (t : Text) :
    stringRest? (fuel + 1) (0x5C :: e :: t) = (stringRest? fuel t).map fun r =>
      (b :: r.1, r.2) := by
  rw [stringRest?]
  simp only [show ¬((0x5C : UInt8) =
    0x22) by decide, show ¬((0x5C : UInt8) < 0x20) by decide, if_false, if_true,
    ne_of_escaped?_eq_some h, h, Option.bind_eq_bind, Option.bind_some]
  cases stringRest? fuel t with
  | none => rfl
  | some r => rfl

theorem hex4?_append (ht : t.length = 4) (rest : Text) :
    hex4? (t ++ rest) = (Text.natOfDigits? 16 t).map fun n => (n, rest) := by
  match t, ht with
  | [a, b, c, d], _ =>
    simp only [List.cons_append, List.nil_append, hex4?, Text.natOfDigits?,
      List.isEmpty_cons, Bool.false_eq_true, if_false, List.foldl_cons,
      List.foldl_nil]
    cases ha : Text.digitValue? a with
    | none => simp
    | some a =>
      cases hb : Text.digitValue? b with
      | none => simp
      | some b =>
        cases hc : Text.digitValue? c with
        | none => simp
        | some c =>
          cases hd : Text.digitValue? d with
          | none => simp
          | some d =>
            simp [Text.digitValue?_lt ha, Text.digitValue?_lt hb,
              Text.digitValue?_lt hc, Text.digitValue?_lt hd]

theorem stringRest?_escapeCode
    {n : Nat} (hn : n < 0xD800) (fuel : Nat) (t : Text) :
    stringRest? (fuel + 1) (escapeCode n ++ t) =
      (stringRest? fuel t).map fun r =>
      (String.utf8EncodeChar (Char.ofNat n) ++ r.1, r.2) := by
  have hhex : hex4? (Text.hexPadded 4 n ++ t) = some (n, t) := by
    rw [hex4?_append (Text.length_hexPadded (by decide) (by omega)),
      Text.natOfDigits?_hexPadded]
    rfl
  have hhalf : joinHalves n t = (String.utf8EncodeChar (Char.ofNat n), t) := by
    have hhigh : isHighHalf n = false := by
      simp [isHighHalf]
      omega
    simp [joinHalves, hhigh, Text.ofCode, hn]
  change stringRest? (fuel + 1) (0x5C :: 0x75 :: (Text.hexPadded 4 n ++ t)) = _
  rw [stringRest?]
  simp only [show ¬((0x5C : UInt8) =
    0x22) by decide, show ¬((0x5C : UInt8) < 0x20) by decide, if_false, if_true,
    hhex, hhalf, Option.bind_eq_bind, Option.bind_some]
  cases stringRest? fuel t with
  | none => rfl
  | some r => rfl

theorem stringRest?_raw
    {c : Char} (hlow : 0x20 ≤ c.toNat) (hquote : c.toNat ≠ 0x22)
    (hslash : c.toNat ≠ 0x5C) (fuel : Nat) (t : Text) :
    stringRest? (fuel + 1) (String.utf8EncodeChar c ++ t) =
      (stringRest? fuel t).map fun r =>
      (String.utf8EncodeChar c ++ r.1, r.2) := by
  obtain ⟨b, tail, hencoded, hfirst⟩ := Scalar.first_utf8EncodeChar c t
  have hlead : b.toNat < 0x80 → c.toNat = b.toNat :=
    Scalar.toNat_eq_of_lead_lt hencoded
  have hb : ¬b = 0x22 ∧ ¬b < 0x20 ∧ ¬b = 0x5C := by
    refine ⟨?_, ?_, ?_⟩
    · rintro rfl
      exact hquote (hlead (by decide))
    · intro h
      have hb : b.toNat < 0x20 := h
      have := hlead (by omega)
      omega
    · rintro rfl
      exact hslash (hlead (by decide))
  have hrepaired : (Scalar.char c).repaired = String.utf8EncodeChar c := rfl
  rw [hencoded, List.cons_append, stringRest?.eq_def]
  dsimp only
  rw [if_neg hb.1, if_neg hb.2.1, if_neg hb.2.2, hfirst, hrepaired,
    List.drop_left, hencoded]

/-- A character is read back from its escape. -/
theorem stringRest?_escape (c : Char) (fuel : Nat) (t : Text) :
    stringRest? (fuel + 1) (escape (.char c) ++ t) =
      (stringRest? fuel t).map fun r =>
      (String.utf8EncodeChar c ++ r.1, r.2) := by
  have hshort : ∀ {n : Nat} {e b : UInt8}, c.toNat = n → escaped? e = some b →
      String.utf8EncodeChar (Char.ofNat n) = [b] →
      stringRest? (fuel + 1) (0x5C :: e :: t) =
        (stringRest? fuel t).map fun r =>
        (String.utf8EncodeChar c ++ r.1, r.2) := by
    intro n e b hn he hb
    rw [stringRest?_short he, ← Char.ofNat_toNat c, hn, hb]
    rfl
  unfold escape
  dsimp only
  split
  next hn => exact hshort hn (e := 0x22) rfl (by decide)
  split
  next hn => exact hshort hn (e := 0x5C) rfl (by decide)
  split
  next hn => exact hshort hn (e := 0x62) rfl (by decide)
  split
  next hn => exact hshort hn (e := 0x66) rfl (by decide)
  split
  next hn => exact hshort hn (e := 0x6E) rfl (by decide)
  split
  next hn => exact hshort hn (e := 0x72) rfl (by decide)
  split
  next hn => exact hshort hn (e := 0x74) rfl (by decide)
  split
  next hcode =>
    simp only [Bool.or_eq_true, decide_eq_true_eq] at hcode
    rw [stringRest?_escapeCode (by omega), Char.ofNat_toNat]
  next hquote hslash _ _ _ _ _ hcode =>
    simp only [Bool.or_eq_true, decide_eq_true_eq, not_or] at hcode
    exact stringRest?_raw (by omega) hquote hslash fuel t

theorem length_escape_pos (c : Char) :
    0 < (escape (.char c)).length := by
  rw [List.length_pos_iff]
  intro hnil
  -- nothing but the closing quote would be read as the character
  have hread := stringRest?_escape c 1 [0x22]
  rw [hnil] at hread
  have hpair : ([], []) = (String.utf8EncodeChar c ++ [], ([] : Text)) :=
    Option.some.inj hread
  obtain ⟨b, tail, hencoded, -⟩ := Scalar.first_utf8EncodeChar c []
  rw [hencoded] at hpair
  cases hpair

theorem stringRest?_flatMap_escape (cs : List Char)
    (hfuel : ((cs.map Scalar.char).flatMap escape).length < fuel)
    (rest : Text) :
    stringRest? fuel ((cs.map Scalar.char).flatMap escape ++ 0x22 :: rest) =
      some (Text.ofChars cs, rest) := by
  induction cs generalizing fuel with
  | nil =>
    obtain ⟨fuel, rfl⟩ : ∃ n, fuel = n + 1 := ⟨fuel - 1, by omega⟩
    rfl
  | cons c cs ih =>
    have hpos := length_escape_pos c
    rw [List.map_cons, List.flatMap_cons, List.length_append] at hfuel
    obtain ⟨fuel, rfl⟩ : ∃ n, fuel = n + 1 := ⟨fuel - 1, by omega⟩
    rw [List.map_cons, List.flatMap_cons, List.append_assoc, stringRest?_escape,
      ih (by omega)]
    rfl

/-- A text that was written in quotes is read, and reading stops behind it. -/
theorem string?_quoted (ht : Text.isWellFormed t = true) :
    ∃ inner : Text, quoted t = 0x22 :: inner ∧ ∀ rest, string? (inner ++ rest) =
    some (t, rest) := by
  have hscalars : Text.scalars t = (Text.chars t).map .char := by
    rw [← Text.scalars_ofChars, Text.ofChars_chars ht]
  refine ⟨((Text.chars t).map Scalar.char).flatMap escape ++ [0x22], ?_, ?_⟩
  · rw [quoted, hscalars]
    rfl
  · intro rest
    rw [List.append_assoc, List.singleton_append, string?,
      stringRest?_flatMap_escape _ (by rw [List.length_append]; omega),
      Text.ofChars_chars ht]

/-! ## Numbers -/

/-- No part of a number stands at the front of the text. -/
def endsNumber : Text → Bool
  | [] => true
  | b :: _ => !(Text.isDigit b || b == 0x2E || b == 0x65 || b == 0x45)

theorem digits?_append {ds : Text} (hne : ds ≠ [])
    (hds : ∀ b ∈ ds, Text.isDigit b = true) (hrest : endsNumber rest = true) :
    digits? (ds ++ rest) = some (ds, rest) := by
  have htake : (ds ++ rest).takeWhile Text.isDigit = ds := by
    rw [List.takeWhile_append_of_pos hds]
    cases rest with
    | nil => simp
    | cons b rest =>
      simp only [endsNumber, Bool.not_eq_true', Bool.or_eq_false_iff] at hrest
      simp [hrest.1.1.1]
  simp [digits?, htake, hne]

theorem whole?_ofNat (n : Nat) (hrest : endsNumber rest = true) :
    whole? (Text.ofNat n ++ rest) = some (Text.ofNat n, rest) := by
  obtain ⟨b, t, heq, hb, hzero, ht⟩ := Text.exists_ofNat_eq_cons n
  rw [heq]
  by_cases h : b = 0x30
  · obtain ⟨-, rfl⟩ := hzero h
    rw [h]
    rfl
  · have hdigits : ∀ c ∈ b :: t, Text.isDigit c = true :=
      List.forall_mem_cons.2 ⟨hb, ht⟩
    rw [← digits?_append (List.cons_ne_nil b t) hdigits hrest, List.cons_append]
    unfold whole?
    split
    next hcons => exact absurd (List.cons.inj hcons).1 h
    next => rfl

theorem number?_ofInt (n : Int) (hrest : endsNumber rest = true) :
    number? (Text.ofInt n ++ rest) = some (Text.ofInt n, rest) := by
  have hfraction : fraction? rest = some ([], rest) := by
    cases rest with
    | nil => rfl
    | cons b rest =>
      simp only [endsNumber, Bool.not_eq_true', Bool.or_eq_false_iff,
        beq_eq_false_iff_ne] at hrest
      unfold fraction?
      split
      next hcons => exact absurd (List.cons.inj hcons).1 hrest.1.1.2
      next => rfl
  have hexponent : exponent? rest = some ([], rest) := by
    cases rest with
    | nil => rfl
    | cons b rest =>
      simp only [endsNumber, Bool.not_eq_true', Bool.or_eq_false_iff,
        beq_eq_false_iff_ne] at hrest
      simp [exponent?, hrest.1.2, hrest.2]
  cases n with
  | ofNat n =>
    obtain ⟨b, t, heq, hb, -⟩ := Text.exists_ofNat_eq_cons n
    have hminus : b ≠ 0x2D := by
      rintro rfl
      cases hb
    have hwhole := whole?_ofNat n hrest
    rw [Text.ofInt]
    rw [heq, List.cons_append] at hwhole ⊢
    unfold number?
    split
    next sign u hsign =>
      split at hsign
      next hcons => exact absurd (List.cons.inj hcons).1 hminus
      next =>
        cases hsign
        simp [hwhole, hfraction, hexponent]
  | negSucc n =>
    change number? (0x2D :: (Text.ofNat (n + 1) ++ rest)) = _
    simp only [number?, whole?_ofNat _ hrest, hfraction, hexponent,
      Option.bind_eq_bind, Option.bind_some]
    simp [Text.ofInt]

/-! ## Values -/

def writtenViews (n : Int) : Views :=
  numberViews (Text.ofInt n)

theorem skipBlanks_cons (hb : isBlank b = false) (t : Text) :
    skipBlanks (b :: t) = b :: t :=
  List.dropWhile_cons_of_neg (by rw [hb]; decide)

theorem skipBlanks_newline (style : Style) (depth : Nat) (t : Text) :
    skipBlanks (newline style depth ++ t) = skipBlanks t := by
  cases style with
  | compact => rfl
  | indented =>
    apply List.dropWhile_append_of_pos
    intro b hb
    rcases List.mem_cons.1 hb with rfl | hb
    · rfl
    · rw [(List.mem_replicate.1 hb).2]
      rfl

theorem skipBlanks_colon (style : Style) (t : Text) :
    ∃ u, colon style ++ t = 0x3A :: u ∧ skipBlanks u = skipBlanks t := by
  cases style with
  | compact => exact ⟨t, rfl, rfl⟩
  | indented => exact ⟨0x20 :: t, rfl, rfl⟩

theorem isBlank_of_isDigit (hb : Text.isDigit b = true) :
    isBlank b = false := by
  cases hblank : isBlank b with
  | false => rfl
  | true =>
    simp only [isBlank, Bool.or_eq_true, decide_eq_true_eq] at hblank
    rcases hblank with ((rfl | rfl) | rfl) | rfl <;> cases hb

/-- No value starts with a blank, or with the end of a list. -/
theorem exists_render_eq_cons (style : Style) (depth : Nat) (t : Tree) :
    ∃ b u, render style depth t = b :: u ∧ isBlank b = false ∧ b ≠ 0x5D := by
  cases t with
  | absent => exact ⟨0x6E, _, rfl, rfl, by decide⟩
  | bool b =>
    cases b with
    | true => exact ⟨0x74, _, rfl, rfl, by decide⟩
    | false => exact ⟨0x66, _, rfl, rfl, by decide⟩
  | int n =>
    cases n with
    | ofNat n =>
      obtain ⟨b, u, heq, hb, -⟩ := Text.exists_ofNat_eq_cons n
      refine ⟨b, u, heq, isBlank_of_isDigit hb, ?_⟩
      rintro rfl
      cases hb
    | negSucc n => exact ⟨0x2D, _, rfl, rfl, by decide⟩
  | text t => exact ⟨0x22, _, rfl, rfl, by decide⟩
  | list ts =>
    cases ts with
    | nil => exact ⟨0x5B, _, rfl, rfl, by decide⟩
    | cons t ts => exact ⟨0x5B, _, rfl, rfl, by decide⟩
  | record ms =>
    cases ms with
    | nil => exact ⟨0x7B, _, rfl, rfl, by decide⟩
    | cons m ms => exact ⟨0x7B, _, rfl, rfl, by decide⟩

theorem skipBlanks_render (style : Style) (depth : Nat) (t : Tree)
    (rest : Text) :
    skipBlanks (render style depth t ++ rest) =
      render style depth t ++ rest := by
  obtain ⟨b, u, heq, hb, -⟩ := exists_render_eq_cons style depth t
  rw [heq]
  exact skipBlanks_cons hb _

theorem endsNumber_newline (style : Style) (depth : Nat)
    (hb : endsNumber [b] = true) (rest : Text) :
    endsNumber (newline style depth ++ b :: rest) = true := by
  cases style with
  | compact => exact hb
  | indented => rfl

theorem value?_int (n : Int) (fuel depth : Nat)
    (hrest : endsNumber rest = true) :
    value? (fuel + 1) depth (Text.ofInt n ++ rest) =
      some (.scalar (numberViews (Text.ofInt n)), rest) := by
  have hnumber := number?_ofInt n hrest
  obtain ⟨b, u, heq, hb⟩ : ∃ b u, Text.ofInt n = b :: u ∧
      (b = 0x2D ∨ Text.isDigit b = true) := by
    cases n with
    | ofNat n =>
      obtain ⟨b, u, heq, hb, -⟩ := Text.exists_ofNat_eq_cons n
      exact ⟨b, u, heq, .inr hb⟩
    | negSucc n => exact ⟨0x2D, _, rfl, .inl rfl⟩
  have hother : ∀ c : UInt8, c ≠ 0x2D → Text.isDigit c = false → b ≠ c := by
    rintro c hminus hdigit rfl
    rcases hb with hb | hb
    · exact hminus hb
    · rw [hdigit] at hb
      cases hb
  rw [heq, List.cons_append] at hnumber ⊢
  rw [value?, if_neg (hother 0x22 (by decide) rfl),
    if_neg (hother 0x5B (by decide) rfl),
    if_neg (hother 0x7B (by decide) rfl), if_neg (hother 0x74 (by decide) rfl),
    if_neg (hother 0x66 (by decide) rfl), if_neg (hother 0x6E (by decide) rfl),
    hnumber]
  rfl

theorem value?_quoted (ht : Text.isWellFormed t = true) (fuel depth : Nat)
    (rest : Text) :
    value? (fuel + 1) depth (quoted t ++ rest) =
      some (.scalar { text? := some t }, rest) := by
  obtain ⟨inner, hquoted, hstring⟩ := string?_quoted ht
  rw [hquoted]
  change (string? (inner ++ rest)).map _ = _
  rw [hstring]
  rfl

theorem value?_list (hdepth : depth < maxDepth) (hskip : skipBlanks t = b :: u)
    (hb : b ≠ 0x5D) :
    value? (fuel + 1) depth (0x5B :: t) =
      (items? fuel (depth + 1) (b :: u)).map fun r => (.list r.1, r.2) := by
  change (if maxDepth ≤ depth then none else _) = _
  rw [if_neg (by omega), hskip]
  split
  next hclose => exact absurd (List.cons.inj hclose).1 hb
  next => rfl

theorem value?_record (hdepth : depth < maxDepth)
    (hskip : skipBlanks t = 0x22 :: u) :
    value? (fuel + 1) depth (0x7B :: t) =
      (members? fuel (depth + 1) (0x22 :: u)).map fun r =>
      (.record r.1, r.2) := by
  change (if maxDepth ≤ depth then none else _) = _
  rw [if_neg (by omega), hskip]
  rfl

theorem items?_last (hvalue : value? fuel depth t = some (d, rest))
    (hskip : skipBlanks rest = 0x5D :: u) :
    items? (fuel + 1) depth t = some ([d], u) := by
  rw [items?, hvalue]
  simp only [Option.bind_eq_bind, Option.bind_some, hskip]
  rfl

theorem items?_comma (hvalue : value? fuel depth t = some (d, rest))
    (hskip : skipBlanks rest = 0x2C :: u) :
    items? (fuel + 1) depth t = (items? fuel depth (skipBlanks u)).map fun r =>
      (d :: r.1, r.2) := by
  rw [items?, hvalue]
  simp only [Option.bind_eq_bind, Option.bind_some, hskip]
  cases items? fuel depth (skipBlanks u) with
  | none => rfl
  | some r => rfl

theorem render_list_append (style : Style) (depth : Nat) (t : Tree)
    (ts : List Tree) (rest : Text) :
    render style depth (.list (t :: ts)) ++ rest =
      0x5B :: (newline style (depth + 1) ++ (render style (depth + 1) t ++
        (renderItems style (depth + 1) ts ++
        (newline style depth ++ 0x5D :: rest)))) := by
  rw [render]
  simp only [List.append_assoc]
  rfl

theorem render_record_append
    (style : Style) (depth : Nat) (m : Text × Tree) (ms : List (Text × Tree))
    (rest : Text) :
    render style depth (.record (m :: ms)) ++ rest =
      0x7B :: (newline style (depth + 1) ++
      (quoted m.1 ++ (colon style ++ (render style (depth + 1) m.2 ++
        (renderMembers style (depth + 1) ms ++
        (newline style depth ++ 0x7D :: rest)))))) := by
  obtain ⟨key, t⟩ := m
  rw [render]
  simp only [List.append_assoc]
  rfl

theorem renderItems_append (style : Style) (depth : Nat) (t : Tree)
    (ts : List Tree) (rest : Text) :
    renderItems style depth (t :: ts) ++ rest =
      0x2C :: (newline style depth ++
      (render style depth t ++ (renderItems style depth ts ++ rest))) := by
  rw [renderItems]
  simp only [List.append_assoc]
  rfl

theorem renderMembers_append
    (style : Style) (depth : Nat) (m : Text × Tree) (ms : List (Text × Tree))
    (rest : Text) :
    renderMembers style depth (m :: ms) ++ rest =
      0x2C :: (newline style depth ++
      (quoted m.1 ++ (colon style ++ (render style depth m.2 ++
        (renderMembers style depth ms ++ rest))))) := by
  obtain ⟨key, t⟩ := m
  rw [renderMembers]
  simp only [List.append_assoc]
  rfl

theorem members?_last {key : Text} (hkey : Text.isWellFormed key = true)
    (style : Style)
    (hskip : skipBlanks t = t) (hvalue : value? fuel depth t = some (d, rest))
    (hclose : skipBlanks rest = 0x7D :: u) :
    members? (fuel + 1) depth (quoted key ++ (colon style ++ t)) =
      some ([(key, d)], u) := by
  obtain ⟨inner, hquoted, hstring⟩ := string?_quoted hkey
  obtain ⟨behind, hcolon, hbehind⟩ := skipBlanks_colon style t
  rw [hquoted, List.cons_append, members?, hstring, hcolon]
  simp only [Option.bind_eq_bind, Option.bind_some,
    skipBlanks_cons (show isBlank 0x3A = false from rfl), hbehind, hskip,
    hvalue, hclose]
  rfl

theorem members?_comma {key : Text} (hkey : Text.isWellFormed key = true)
    (style : Style)
    (hskip : skipBlanks t = t) (hvalue : value? fuel depth t = some (d, rest))
    (hcomma : skipBlanks rest = 0x2C :: u) :
    members? (fuel + 1) depth (quoted key ++ (colon style ++ t)) =
      (members? fuel depth (skipBlanks u)).map fun r =>
      ((key, d) :: r.1, r.2) := by
  obtain ⟨inner, hquoted, hstring⟩ := string?_quoted hkey
  obtain ⟨behind, hcolon, hbehind⟩ := skipBlanks_colon style t
  rw [hquoted, List.cons_append, members?, hstring, hcolon]
  simp only [Option.bind_eq_bind, Option.bind_some,
    skipBlanks_cons (show isBlank 0x3A = false from rfl), hbehind, hskip,
    hvalue, hcomma]
  cases members? fuel depth (skipBlanks u) with
  | none => rfl
  | some r => rfl

theorem skipBlanks_quoted (t rest : Text) :
    skipBlanks (quoted t ++ rest) = quoted t ++ rest :=
  skipBlanks_cons (show isBlank 0x22 = false from rfl) _

theorem sizeOf_snd_lt (m : Text × Tree) :
    sizeOf m.2 < sizeOf m := by
  obtain ⟨key, t⟩ := m
  simp only [Prod.mk.sizeOf_spec]
  omega

-- The induction is on the tree. Each call of the reader has at least one byte
-- of its own: a value its first byte, an item the comma or the bracket behind
-- it.
mutual

/-- A value that was written is read, and reading stops behind it. -/
theorem value?_render
    (style : Style) (t : Tree) {n depth : Nat} (hregular : t.Regular n)
    (hdepth : depth + n ≤ maxDepth) (ht : t.Within .textual) {fuel : Nat}
    (hfuel : (render style depth t).length ≤ fuel) {rest : Text}
    (hrest : endsNumber rest = true) :
    value? fuel depth (render style depth t ++ rest) =
      some (t.datum writtenViews, rest) := by
  have hpos : 0 < (render style depth t).length := by
    obtain ⟨b, u, heq, -⟩ := exists_render_eq_cons style depth t
    rw [heq]
    exact Nat.succ_pos _
  obtain ⟨fuel, rfl⟩ : ∃ k, fuel = k + 1 := ⟨fuel - 1, by omega⟩
  cases t with
  | absent =>
    rw [render, Tree.datum]
    exact congrArg (Option.map _) (Text.stripFront?_append "ull" rest)
  | bool b =>
    cases b with
    | true =>
      rw [render, Tree.datum]
      exact congrArg (Option.map _) (Text.stripFront?_append "rue" rest)
    | false =>
      rw [render, Tree.datum]
      exact congrArg (Option.map _) (Text.stripFront?_append "alse" rest)
  | int n =>
    rw [render, Tree.datum]
    exact value?_int n fuel depth hrest
  | text t =>
    rw [Tree.Within] at ht
    rw [render, Tree.datum]
    exact value?_quoted ht fuel depth rest
  | list ts =>
    cases n with
    | zero => exact hregular.elim
    | succ n =>
      rw [Tree.Within] at ht
      cases ts with
      | nil =>
        rw [render, Tree.datum]
        change (if maxDepth ≤ depth then none else some (Datum.list [], rest)) =
          _
        rw [if_neg (by omega)]
        rfl
      | cons t ts =>
        obtain ⟨b, u, heq, hb, hclose⟩ :=
          exists_render_eq_cons style (depth + 1) t
        have hlength : (render style (depth + 1) t).length +
            (renderItems style (depth + 1) ts).length <
            fuel := by
          have hopened :=
            congrArg List.length (render_list_append style depth t ts [])
          simp only [List.length_append, List.length_cons, List.length_nil]
            at hopened
          omega
        have hitems :=
          items?_renderItems style t ts hregular
            (by omega) ht.2 hlength depth rest
        rw [render_list_append, Tree.datum]
        rw [heq, List.cons_append] at hitems ⊢
        rw [value?_list (by omega)
          ((skipBlanks_newline _ _ _).trans (skipBlanks_cons hb _)) hclose,
          hitems]
        rfl
  | record ms =>
    cases n with
    | zero => exact hregular.elim
    | succ n =>
      rw [Tree.Within] at ht
      cases ms with
      | nil =>
        rw [render, Tree.datum]
        change (if maxDepth ≤ depth then none
          else some (Datum.record [], rest)) = _
        rw [if_neg (by omega)]
        rfl
      | cons m ms =>
        have hlength : (render style (depth + 1) m.2).length +
            (renderMembers style (depth + 1) ms).length <
            fuel := by
          have hopened :=
            congrArg List.length (render_record_append style depth m ms [])
          simp only [List.length_append, List.length_cons, List.length_nil]
            at hopened
          omega
        have hmembers :=
          members?_renderMembers style m ms (fun m hm => (hregular.2 m hm).2)
            (by omega) ht.2
          hlength depth rest
        rw [render_record_append, Tree.datum,
          value?_record (by omega) (skipBlanks_newline _ _ _)]
        exact congrArg (Option.map _) hmembers
termination_by sizeOf t

theorem items?_renderItems
    (style : Style) (t : Tree) (ts : List Tree) {n depth : Nat}
    (hregular : ∀ u ∈ t :: ts, u.Regular n) (hdepth : depth + n ≤ maxDepth)
    (hts : ∀ u ∈ t :: ts, u.Within .textual) {fuel : Nat}
    (hfuel : (render style depth t).length +
      (renderItems style depth ts).length < fuel) (close : Nat) (rest : Text) :
    items? fuel depth
        (render style depth t ++
        (renderItems style depth ts ++ (newline style close ++ 0x5D :: rest))) =
      some ((t :: ts).map (Tree.datum writtenViews), rest) := by
  obtain ⟨fuel, rfl⟩ : ∃ k, fuel = k + 1 := ⟨fuel - 1, by omega⟩
  have ht : t.Regular n ∧ t.Within .textual :=
    ⟨hregular t List.mem_cons_self, hts t List.mem_cons_self⟩
  cases ts with
  | nil =>
    have hend := endsNumber_newline style close (b := 0x5D) rfl rest
    have hfuel : (render style depth t).length ≤ fuel := by omega
    have hvalue := value?_render style t ht.1 hdepth ht.2 hfuel hend
    exact items?_last hvalue (skipBlanks_newline _ _ _)
  | cons u us =>
    have hrest : ∀ v ∈ u :: us, v.Regular n ∧ v.Within .textual :=
      fun v hv =>
        ⟨hregular v (List.mem_cons_of_mem t hv),
          hts v (List.mem_cons_of_mem t hv)⟩
    have hlength : (render style depth u).length +
        (renderItems style depth us).length < fuel := by
      have hcomma :=
        congrArg List.length (renderItems_append style depth u us [])
      simp only [List.length_append, List.length_cons, List.length_nil]
        at hcomma
      omega
    have hfuel : (render style depth t).length ≤ fuel := by omega
    have hend :
        endsNumber (0x2C :: (newline style depth ++ (render style depth u ++
        (renderItems style depth us ++
        (newline style close ++ 0x5D :: rest))))) = true := rfl
    have hvalue := value?_render style t ht.1 hdepth ht.2 hfuel hend
    rw [renderItems_append]
    rw [items?_comma hvalue (skipBlanks_cons rfl _), skipBlanks_newline,
      skipBlanks_render,
      items?_renderItems style u us (fun v hv => (hrest v hv).1) hdepth
      (fun v hv => (hrest v hv).2) hlength]
    rfl
termination_by sizeOf (t :: ts)

theorem members?_renderMembers
    (style : Style) (m : Text × Tree) (ms : List (Text × Tree)) {n depth : Nat}
    (hregular : ∀ x ∈ m :: ms, x.2.Regular n) (hdepth : depth + n ≤ maxDepth)
    (hms : ∀ x ∈ m :: ms, Text.isWellFormed x.1 = true ∧ x.2.Within .textual)
    {fuel : Nat}
    (hfuel : (render style depth m.2).length +
      (renderMembers style depth ms).length < fuel) (close : Nat)
      (rest : Text) :
    members? fuel depth
        (quoted m.1 ++
        (colon style ++
        (render style depth m.2 ++ (renderMembers style depth ms ++
          (newline style close ++ 0x7D :: rest))))) =
      some ((m :: ms).map fun x => (x.1, x.2.datum writtenViews), rest) := by
  obtain ⟨fuel, rfl⟩ : ∃ k, fuel = k + 1 := ⟨fuel - 1, by omega⟩
  have hsmaller := sizeOf_snd_lt m
  have hm : m.2.Regular n := hregular m List.mem_cons_self
  obtain ⟨hkey, hwithin⟩ := hms m List.mem_cons_self
  cases ms with
  | nil =>
    have hend := endsNumber_newline style close (b := 0x7D) rfl rest
    have hfuel : (render style depth m.2).length ≤ fuel := by omega
    have hvalue := value?_render style m.2 hm hdepth hwithin hfuel hend
    exact members?_last hkey style (skipBlanks_render style depth m.2 _) hvalue
      (skipBlanks_newline _ _ _)
  | cons u us =>
    have hrest : ∀ x ∈ u :: us, x.2.Regular n ∧ Text.isWellFormed x.1 = true ∧
      x.2.Within .textual :=
      fun x hx =>
        ⟨hregular x (List.mem_cons_of_mem _ hx),
          hms x (List.mem_cons_of_mem _ hx)⟩
    have hlength : (render style depth u.2).length +
        (renderMembers style depth us).length < fuel := by
      have hcomma :=
        congrArg List.length (renderMembers_append style depth u us [])
      simp only [List.length_append, List.length_cons, List.length_nil]
        at hcomma
      omega
    have hfuel : (render style depth m.2).length ≤ fuel := by omega
    have hend :
        endsNumber
        (0x2C :: (newline style depth ++ (quoted u.1 ++ (colon style ++
        (render style depth u.2 ++ (renderMembers style depth us ++
          (newline style close ++ 0x7D :: rest))))))) = true := rfl
    have hvalue := value?_render style m.2 hm hdepth hwithin hfuel hend
    rw [renderMembers_append]
    rw [members?_comma hkey style (skipBlanks_render style depth m.2 _) hvalue
      (skipBlanks_cons rfl _), skipBlanks_newline, skipBlanks_quoted,
      members?_renderMembers style u us (fun x hx => (hrest x hx).1) hdepth
      (fun x hx => (hrest x hx).2) hlength]
    rfl
termination_by sizeOf (m :: ms)

end

theorem parse?_document
    {t : Tree} {n : Nat} (hregular : t.Regular n) (hdepth : n ≤ maxDepth)
    (ht : t.Within .textual) :
    parse? (document t) = some (t.datum writtenViews) := by
  have hfuel : (render .indented 0 t).length ≤ (document t).length + 1 := by
    rw [document, List.length_append]
    omega
  have hend : endsNumber ("\n" : Text) = true := rfl
  have hvalue := value?_render .indented t hregular (by omega) ht hfuel hend
  rw [← skipBlanks_render] at hvalue
  exact congrArg (Option.map Prod.fst) hvalue

/-! ## Corpora -/

theorem isPlain_of_mem {k : Text} (hk : isPlainKey k = true) (hb : b ∈ k) :
    b.toNat < 0x80 ∧ Text.lowerByte b = b := by
  rw [isPlainKey, Bool.and_eq_true, List.all_eq_true] at hk
  have hbyte := hk.2 b hb
  simp only [Bool.or_eq_true, Bool.and_eq_true, decide_eq_true_eq, beq_iff_eq,
    UInt8.le_iff_toNat_le, UInt8.reduceToNat] at hbyte
  rcases hbyte with hlower | rfl
  · refine ⟨by omega, if_neg ?_⟩
    simp only [Text.isUpper, Bool.and_eq_true, decide_eq_true_eq,
      UInt8.le_iff_toNat_le, UInt8.reduceToNat]
    omega
  · exact ⟨by decide, rfl⟩

/-- Keys without capitals name the field with the same bytes. -/
theorem equalsFolded_eq_beq
    {k field : Text} (hk : isPlainKey k = true)
    (hfield : isPlainKey field = true) :
    Text.equalsFolded k field = (field == k) := by
  have hlower : field.map Text.lowerByte = field :=
    (List.map_congr_left fun b hb => (isPlain_of_mem hfield hb).2).trans
      field.map_id
  have hfold : ∀ b ∈ k, Text.foldScalar (.char (Char.ofNat b.toNat)) = [b] := by
    intro b hb
    obtain ⟨hlow, hsame⟩ := isPlain_of_mem hk hb
    have hval : (Char.ofNat b.toNat).toNat = b.toNat :=
      Scalar.val_ofNat (.inl (by omega))
    have hbyte : (Char.ofNat b.toNat).toUInt8 = b := Scalar.ofNat_eq hval
    rw [Text.foldScalar, hval, if_pos hlow, hbyte, hsame]
  have hfolded : (Text.scalars k).flatMap Text.foldScalar = k := by
    rw [Text.scalars_of_ascii fun b hb => (isPlain_of_mem hk hb).1,
      List.flatMap_map, List.flatMap_def, List.map_congr_left hfold,
      ← List.flatMap_def]
    exact List.flatMap_singleton' k
  rw [Text.equalsFolded, hlower, hfolded, Bool.beq_comm]

theorem word?_numberViews (w : UInt32) :
    (numberViews (Text.ofInt w.toNat)).word? = some w := by
  have hw : w.toNat < 0x100000000 := w.toNat_lt
  change ((Text.natOfDigits? 10 (Text.ofNat w.toNat)).bind _) = _
  rw [Text.natOfDigits?_ofNat, Option.bind_some, if_pos hw, UInt32.ofNat_toNat]

def medium : Medium where
  conventions := conventions
  limits := .textual
  integer := writtenViews
  int?_integer _ hn := Text.int64?_ofInt hn.1 hn.2
  word?_integer w := by
    have hw : w.toNat < 0x100000000 := w.toNat_lt
    exact ⟨⟨by omega, by omega⟩, word?_numberViews w⟩
  key k hk := ⟨Text.isWellFormed_of_ascii fun _ hb => (isPlain_of_mem hk hb).1,
    fun field hfield => equalsFolded_eq_beq hk hfield⟩
  length _ _ := True.intro

end Json

open Interchange in
/-- A corpus of well-formed texts that was written as JSON is read back as it
was. -/
theorem Interchange.Corpus.read_write_json
    {c : Corpus} (hschema : c.schema = schemaVersion) (hc : c.Within .textual) :
    Corpus.read .json (c.write .json) = .ok c := by
  have hkeeps : Corpus.codec.Keeps Json.medium c := Corpus.keeps hc
  have hparsed : Json.parse? (Json.document (Corpus.codec.write c)) =
    some ((Corpus.codec.write c).datum Json.writtenViews) :=
    Json.parse?_document (Corpus.regular c) (by decide) hkeeps.within
  have hread : Corpus.codec.read Json.conventions
    ((Corpus.codec.write c).datum Json.writtenViews) {} = some c :=
    hkeeps.read_eq
  have hbound : (Format.json.parseDatum? (c.write .json)).bind
      (fun d => Corpus.codec.read Format.json.conventions d {}) = some c := by
    rw [Corpus.write, Format.render, Format.parseDatum?, hparsed,
      Option.bind_some, Format.conventions, hread]
  rw [Corpus.read, hbound]
  exact if_pos hschema

namespace Interchange

/-- A corpus with all kinds of characters in its texts: quotes, backslashes,
controls, what a script could trip over, the separators of lines and paragraphs,
and a character beyond the basic plane. -/
def motley : Corpus where
  schema := schemaVersion
  emitOrder := some ["a\\b.xml", "\u2028\u2029"]
  documents := some [
    { path := "a\\b.xml"
      copyright := "<script>&\"\x00\x01\x1f\x7f\x08\n\r\t\x0c</script>"
      summary := "😀é\u0085"
      nullRun := -9223372036854775808
      interfaces := some [
        { name := "p_i"
          version := 9223372036854775807
          enums :=
            [{ name := "e",
               entries := some [{ name := "all", value := 0xFFFFFFFF }] },
                 { name := "f" }]
          requests := [
            { name := "r"
              result := some { name := "id", kind := "new_id" }
              args := [
                { name := "a"
                  kind := "object"
                  interface := some { name := "i", target := "p_i" }
                  enum := some { qualifier := "\\u0041",
                                 name := "" } }] }] }] }]

theorem motley_within : motley.Within .textual := by
  decide +kernel

theorem motley_read_write :
    motley.schema = schemaVersion ∧ motley.Within .textual ∧
      Corpus.read .json (motley.write .json) = .ok motley :=
  ⟨rfl, motley_within, Corpus.read_write_json rfl motley_within⟩

end Interchange

end ProtocolCorpus
