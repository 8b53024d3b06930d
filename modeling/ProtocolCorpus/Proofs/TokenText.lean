import Mathlib.Data.List.TakeWhile
import ProtocolCorpus.Markup.Stream
import ProtocolCorpus.Proofs.Chain

/-!
# The text of a token

What a token leaves of a text is the end of the text, so a token has been read
from the bytes in front of it. For an opening tag these bytes are known:
`TagText` is the grammar of opening tags, from `<` to `>`, and an opening tag is
read from a text exactly if the text starts with its written form. What stands
behind it is not looked at.
-/

namespace ProtocolCorpus

namespace Markup

variable {place : DataPlace} {s : DataState}
  {input data rest t body gap name v : Text}
  {p : UInt8 → Bool} {b quote : UInt8} {n : Name} {attributes : List Attribute}
  {empty : Bool}
  {token : Token}

/-! ## What is left -/

theorem suffix_of_scanDataFrom {skip : Nat}
    (h : scanDataFrom place s skip input = .ok (data, rest)) :
    rest <:+ input := by
  fun_induction scanDataFrom place s skip input <;> grind

theorem suffix_of_scanData (h : scanData place input = .ok (data, rest)) :
    rest <:+ input := by
  unfold scanData at h
  split at h
  next => cases h
  next reversed rest' heq =>
    have hsuffix := suffix_of_scanDataFrom heq
    grind

theorem suffix_of_scanComment (h : scanComment t = .ok rest) :
    rest <:+ t := by
  fun_induction scanComment t <;> grind [List.suffix_cons_iff]

theorem suffix_of_scanInstruction (h : scanInstruction t = .ok (body, rest)) :
    rest <:+ t := by
  fun_induction scanInstruction t generalizing body rest <;>
    grind [List.suffix_cons_iff]

theorem suffix_of_scanDeclaration {state : DeclarationState} {depth : Nat}
    (h : scanDeclaration state depth t = .ok rest) :
    rest <:+ t := by
  fun_induction scanDeclaration state depth t <;> grind

theorem suffix_of_scanSectionWord {word : Text}
    (h : scanSectionWord word t = .ok rest) :
    rest <:+ t := by
  fun_induction scanSectionWord word t <;> grind

theorem skipSpace_suffix (t : Text) :
    skipSpace t <:+ t :=
  List.dropWhile_suffix isSpaceByte

/-! ## Gaps and names -/

theorem takeWhile_append_stop {run : Text} (hrun : ∀ c ∈ run, p c = true)
    (hb : p b = false) (t : Text) :
    (run ++ b :: t).takeWhile p = run ∧ (run ++ b :: t).dropWhile p =
      b :: t := by
  rw [List.takeWhile_append_of_pos hrun, List.dropWhile_append_of_pos hrun]
  simp [hb]

theorem exists_of_dropWhile_eq_cons (h : input.dropWhile p = b :: t) :
    input = input.takeWhile p ++ b :: t ∧
    (∀ c ∈ input.takeWhile p, p c = true) ∧ p b = false := by
  refine ⟨?_, fun c hc => List.mem_takeWhile_imp hc, ?_⟩
  · rw [← h, List.takeWhile_append_dropWhile]
  · have hne : input.dropWhile p ≠ [] := by simp [h]
    have hhead := List.head_dropWhile_not p hne
    simpa [h] using hhead

/-- White space between the parts of a tag, or nothing. -/
def IsGap (t : Text) : Prop :=
  ∀ b ∈ t, isSpaceByte b = true

theorem exists_isGap (input : Text) :
    ∃ gap, IsGap gap ∧ input = gap ++ skipSpace input :=
  ⟨input.takeWhile isSpaceByte, fun _ hb => List.mem_takeWhile_imp hb,
    List.takeWhile_append_dropWhile.symm⟩

theorem skipSpace_append (hgap : IsGap gap) (hb : isSpaceByte b = false)
    (t : Text) :
    skipSpace (gap ++ b :: t) = b :: t :=
  (takeWhile_append_stop hgap hb t).2

theorem length_lt_append
    {front : Text} (h : front ≠ []) (rest : Text) :
    rest.length < (front ++ rest).length := by
  rw [List.length_append]
  have hfront := List.length_pos_iff.2 h
  omega

theorem ne_of_isNameByte {c : UInt8} (hb : isNameByte b = true)
    (hc : isNameByte c = false) :
    b ≠ c := by
  rintro rfl
  rw [hb] at hc
  cases hc

theorem isSpaceByte_of_isNameByte (h : isNameByte b = true) :
    isSpaceByte b = false := by
  by_contra hspace
  simp only [isSpaceByte, Bool.not_eq_false, Bool.or_eq_true, beq_iff_eq]
    at hspace
  rcases hspace with ((rfl | rfl) | rfl) | rfl <;> cases h

/-- A gap and what stands behind it do not continue a name. -/
theorem exists_cons_of_isGap (hgap : IsGap gap) (hb : isNameByte b = false)
    (t : Text) :
    ∃ c t', gap ++ b :: t = c :: t' ∧ isNameByte c = false := by
  cases gap with
  | nil => exact ⟨b, t, rfl, hb⟩
  | cons c gap =>
    refine ⟨c, gap ++ b :: t, rfl, ?_⟩
    by_contra hc
    have hspace := isSpaceByte_of_isNameByte (Bool.of_not_eq_false hc)
    simp [hgap c (by simp)] at hspace

/-- What may be a name is a run of bytes in front of another byte. -/
theorem scanNameBytes_eq_ok_iff {rest : Rest input} :
    scanNameBytes input = .ok (some (name, rest)) ↔
      name ≠ [] ∧ (∀ c ∈ name, isNameByte c = true) ∧
        ∃ b t, input = name ++ b :: t ∧ rest.1 = b :: t ∧
        isNameByte b = false := by
  unfold scanNameBytes
  constructor
  · intro h
    split at h
    next => cases h
    next hdrop =>
      split at h
      next => cases h
      next hname =>
        cases h
        obtain ⟨b, t, ht⟩ :=
          List.exists_cons_of_ne_nil
            (fun hnil => hdrop (List.isEmpty_iff.2 hnil))
        obtain ⟨hinput, hbytes, hb⟩ := exists_of_dropWhile_eq_cons ht
        exact ⟨hname, hbytes, b, t, hinput, ht, hb⟩
  · rintro ⟨hname, hbytes, b, t, rfl, hrest, hb⟩
    obtain ⟨htake, hdrop⟩ := takeWhile_append_stop hbytes hb t
    simp [htake, hdrop, hname, Subtype.ext_iff, hrest]

theorem scanPlainName_eq_ok_iff {missing : Fault} {rest : Rest input} :
    scanPlainName missing input = .ok (name, rest) ↔
      isName name = true ∧ (∀ c ∈ name, isNameByte c = true) ∧
        ∃ b t, input = name ++ b :: t ∧ rest.1 = b :: t ∧
        isNameByte b = false := by
  constructor
  · intro h
    unfold scanPlainName at h
    split at h
    next => cases h
    next => cases h
    next name' rest' hbytes =>
      split at h
      next hname =>
        cases h
        exact ⟨hname, (scanNameBytes_eq_ok_iff.1 hbytes).2⟩
      next => cases h
  · rintro ⟨hname, hrun⟩
    have hne : name ≠ [] := by
      rintro rfl
      cases hname
    simp [scanPlainName, scanNameBytes_eq_ok_iff.2 ⟨hne, hrun⟩, hname]

structure NameText (t : Text) (n : Name) : Prop where
  isName : isName t = true
  bytes : ∀ b ∈ t, isNameByte b = true
  divided : Name.ofText? t = some n

theorem NameText.exists_cons (h : NameText t n) :
    ∃ b t', t = b :: t' ∧ isNameByte b = true := by
  cases t with
  | nil => cases h.isName
  | cons b t' => exact ⟨b, t', rfl, h.bytes b (by simp)⟩

theorem scanName_eq_ok_iff {missing : Fault} {rest : Rest input} :
    scanName missing input = .ok (n, rest) ↔
      ∃ name b t, NameText name n ∧ input = name ++ b :: t ∧ rest.1 = b :: t ∧
      isNameByte b = false := by
  unfold scanName
  constructor
  · intro h
    split at h
    next => cases h
    next name rest' hplain =>
      split at h
      next n' hn =>
        cases h
        obtain ⟨hname, hbytes, b, t, hinput, hrest, hb⟩ :=
          scanPlainName_eq_ok_iff.1 hplain
        exact ⟨name, b, t, ⟨hname, hbytes, hn⟩, hinput, hrest, hb⟩
      next => cases h
  · rintro ⟨name, b, t, hname, hinput, hrest, hb⟩
    have hplain : scanPlainName missing input = .ok (name, rest) :=
      scanPlainName_eq_ok_iff.2
        ⟨hname.isName, hname.bytes, b, t, hinput, hrest, hb⟩
    simp [hplain, hname.divided]

theorem scanName_of_nameText (hname : NameText name n)
    (hrest : ∃ b t, rest = b :: t ∧ isNameByte b = false) (missing : Fault) :
    ∃ hlt, scanName missing (name ++ rest) = .ok (n, ⟨rest, hlt⟩) := by
  obtain ⟨b, t, rfl, hb⟩ := hrest
  obtain ⟨c, name', rfl, -⟩ := hname.exists_cons
  exact ⟨length_lt_append (by simp) _, scanName_eq_ok_iff.2
    ⟨_, b, t, hname, rfl, rfl, hb⟩⟩

/-! ## Escapes and values -/

/-- What stands behind the ampersand of an escape, and what the escape stands
for. -/
inductive Escape : Text → Text → Prop
  | hexadecimal {digits t : Text} :
  (∀ b ∈ digits, (Text.digitValue? b).isSome = true) →
      numberedCharacter? 16 digits = some t →
      Escape (0x23 :: 0x78 :: (digits ++ [0x3B])) t
  | decimal {digits t : Text} : (∀ b ∈ digits, Text.isDigit b = true) →
      numberedCharacter? 10 digits = some t →
      Escape (0x23 :: (digits ++ [0x3B])) t
  | named {name t : Text} : namedCharacter? name = some t →
    Escape (name ++ [0x3B]) t

/-- A run of bytes closed by a semicolon. -/
theorem closeEscape_eq_ok_iff (hp : p 0x3B = false) (body : Text → Text)
    (meaning : Text → Option Text) {n : Nat} :
    closeEscape (body (input.takeWhile p)) (meaning (input.takeWhile p))
      (input.dropWhile p) = .ok (t, n) ↔
      ∃ run rest, input = run ++ 0x3B :: rest ∧ (∀ c ∈ run, p c = true) ∧
      meaning run = some t ∧
        (body run).length + 1 = n := by
  constructor
  · intro h
    unfold closeEscape at h
    split at h
    next => cases h
    next b rest hrest =>
      split at h
      next hb =>
        split at h
        next t' ht =>
          cases h
          obtain ⟨hinput, hrun, -⟩ := exists_of_dropWhile_eq_cons hrest
          exact ⟨_, rest, hb ▸ hinput, hrun, ht, rfl⟩
        next => cases h
      next => cases h
  · rintro ⟨run, rest, rfl, hrun, ht, rfl⟩
    obtain ⟨htake, hdrop⟩ := takeWhile_append_stop hrun hp rest
    simp [htake, hdrop, closeEscape, ht]

theorem isName_of_namedCharacter? (h : namedCharacter? name = some t) :
    isName name = true ∧ ∀ b ∈ name, isNameByte b = true := by
  have hname : name = "lt" ∨ name = "gt" ∨ name = "amp" ∨ name = "apos" ∨
      name = "quot" := by
    unfold namedCharacter? at h
    grind
  rcases hname with rfl | rfl | rfl | rfl | rfl <;> decide +kernel

theorem scanEscape_eq_ok_iff {n : Nat} :
    scanEscape input = .ok (t, n) ↔ ∃ body rest, input = body ++ rest ∧
    body.length = n ∧ Escape body t := by
  have hsign : Text.ofString "#" = [0x23] := by decide
  have hsign' : Text.ofString "#x" = [0x23, 0x78] := by decide
  constructor
  · intro h
    unfold scanEscape at h
    split at h
    next => cases h
    next => cases h
    next =>
      obtain ⟨run, rest, rfl, hrun, ht, rfl⟩ :=
        (closeEscape_eq_ok_iff (by decide) (Text.ofString "#x" ++ ·)
          (numberedCharacter? 16)).1 h
      exact ⟨_, rest, by simp, by simp [hsign'], .hexadecimal hrun ht⟩
    next =>
      obtain ⟨run, rest, rfl, hrun, ht, rfl⟩ :=
        (closeEscape_eq_ok_iff (by decide) (Text.ofString "#" ++ ·)
          (numberedCharacter? 10)).1 h
      exact ⟨_, rest, by simp, by simp [hsign], .decimal hrun ht⟩
    next =>
      obtain ⟨run, rest, rfl, hrun, ht, rfl⟩ :=
        (closeEscape_eq_ok_iff (by decide) id fun name =>
          if isName name then namedCharacter? name else none).1 h
      have hnamed : namedCharacter? run = some t := by
        split at ht
        · exact ht
        · cases ht
      exact ⟨_, rest, by simp, by simp, .named hnamed⟩
  · rintro ⟨body, rest, rfl, rfl, hescape⟩
    cases hescape with
    | hexadecimal hrun ht =>
      rw [List.cons_append, List.cons_append, List.append_assoc,
        List.singleton_append]
      refine (closeEscape_eq_ok_iff (by decide) (Text.ofString "#x" ++ ·)
        (numberedCharacter? 16)).2 ?_
      exact ⟨_, rest, rfl, hrun, ht, by simp [hsign']⟩
    | @decimal digits _ hrun ht =>
      cases digits with
      | nil => cases ht
      | cons d ds =>
        have hd : d ≠ 0x78 := by
          rintro rfl
          cases hrun 0x78 (by simp)
        rw [List.cons_append, List.append_assoc, List.singleton_append,
          scanEscape]
        · refine (closeEscape_eq_ok_iff (by decide) (Text.ofString "#" ++ ·)
            (numberedCharacter? 10)).2 ?_
          exact ⟨_, rest, rfl, hrun, ht, by simp [hsign]⟩
        · simp
        · simp [hd]
    | @named name _ ht =>
      obtain ⟨hname, hrun⟩ := isName_of_namedCharacter? ht
      cases name with
      | nil => cases hname
      | cons b bs =>
        have hb : b ≠ 0x23 := ne_of_isNameByte (hrun b (by simp)) rfl
        rw [List.append_assoc, List.singleton_append, scanEscape]
        · refine (closeEscape_eq_ok_iff (by decide) id
            fun name => if isName name then namedCharacter? name else none).2 ?_
          exact ⟨_, rest, rfl, hrun, by rw [if_pos hname, ht], by simp⟩
        all_goals simp [hb]

/-- An escape stays what it is if only bytes behind it are changed. -/
theorem scanEscape_append {n : Nat} (h : scanEscape (body ++ rest) = .ok (t, n))
    (hn : n ≤ body.length) (rest' : Text) :
    scanEscape (body ++ rest') = .ok (t, n) := by
  obtain ⟨escape, behind, heq, rfl, hescape⟩ := scanEscape_eq_ok_iff.1 h
  have hfront : escape <+: body ++ rest := ⟨behind, heq.symm⟩
  obtain ⟨middle, rfl⟩ :=
    List.prefix_of_prefix_length_le hfront (List.prefix_append body rest) hn
  exact scanEscape_eq_ok_iff.2 ⟨escape, middle ++ rest', by simp, rfl, hescape⟩

/-- One byte of a value: the quote at its end, the ampersand of an escape, or a
byte that stands for itself. -/
theorem scanDataFrom_value_cons_iff :
    scanDataFrom (.value quote) s 0 (b :: input) = .ok (data, rest) ↔
      b ≠ 0x3C ∧
        (b = quote ∧ s.data = data ∧ input = rest ∨
          b ≠ quote ∧ b = 0x26 ∧ (∃ t n, scanEscape input = .ok (t, n) ∧
            scanDataFrom (.value quote) (s.pushEscape t) n input =
            .ok (data, rest)) ∨
          b ≠ quote ∧ b ≠ 0x26 ∧
          scanDataFrom (.value quote) (s.push b) 0 input =
          .ok (data, rest)) := by
  rw [scanDataFrom]
  by_cases hopen : b = 0x3C
  · simp [hopen]
  by_cases hquote : b = quote
  · subst hquote
    simp [hopen]
  by_cases hescape : b = 0x26
  · subst hescape
    cases hscan : scanEscape input with
    | error e => simp [hquote]
    | ok escape => simp [hquote, Prod.ext_iff, and_assoc]
  · simp [hopen, hquote, hescape]

/-- A value with something behind it has been read up to a quote that no escape
passes over, and nothing behind that quote has been looked at. -/
theorem exists_of_scanDataFrom_value {skip : Nat}
    (h : scanDataFrom (.value quote) s skip input = .ok (data, rest))
    (hrest : rest ≠ []) :
    ∃ body, input = body ++ quote :: rest ∧ skip ≤ body.length ∧
      ∀ rest', scanDataFrom (.value quote) s skip (body ++ quote :: rest') =
      .ok (data, rest') := by
  induction input generalizing s skip with
  | nil =>
    rw [scanDataFrom, if_neg (by simp)] at h
    cases h
    exact absurd rfl hrest
  | cons b input ih =>
    cases skip with
    | succ skip =>
      obtain ⟨body, rfl, hskip, hread⟩ := ih h
      exact ⟨b :: body, rfl, Nat.succ_le_succ hskip, hread⟩
    | zero =>
      obtain ⟨hopen, ⟨rfl, rfl, rfl⟩ | ⟨hquote, hb, t, n, hescape, hmore⟩
        | ⟨hquote, hb, hmore⟩⟩ :=
        scanDataFrom_value_cons_iff.1 h
      · refine ⟨[], rfl, Nat.zero_le _, ?_⟩
        intro rest'
        exact scanDataFrom_value_cons_iff.2 ⟨hopen, .inl ⟨rfl, rfl, rfl⟩⟩
      · obtain ⟨body, rfl, hn, hread⟩ := ih hmore
        refine ⟨b :: body, rfl, Nat.zero_le _, ?_⟩
        intro rest'
        have hescape' := scanEscape_append hescape hn (quote :: rest')
        exact scanDataFrom_value_cons_iff.2
          ⟨hopen, .inr (.inl ⟨hquote, hb, t, n, hescape', hread rest'⟩)⟩
      · obtain ⟨body, rfl, -, hread⟩ := ih hmore
        refine ⟨b :: body, rfl, Nat.zero_le _, ?_⟩
        intro rest'
        exact scanDataFrom_value_cons_iff.2
          ⟨hopen, .inr (.inr ⟨hquote, hb, hread rest'⟩)⟩

theorem scanData_eq_ok_iff :
    scanData place input = .ok (data, rest) ↔
      scanDataFrom place {} 0 input = .ok (data.reverse, rest) ∧
      dataFault? data = none := by
  unfold scanData
  cases hfrom : scanDataFrom place {} 0 input with
  | error e => simp
  | ok read =>
    obtain ⟨reversed, rest'⟩ := read
    cases hfault : dataFault? reversed.reverse <;> grind [List.reverse_reverse]

/-- The written form of a value, from quote to quote. -/
def QuotedText (t v : Text) : Prop :=
  ∃ quote body, (quote = 0x22 ∨ quote = 0x27) ∧ t = quote :: (body ++ [quote]) ∧
    ∀ rest, scanData (.value quote) (body ++ quote :: rest) = .ok (v, rest)

theorem exists_of_scanData_value
    (h : scanData (.value quote) input = .ok (data, rest)) (hrest : rest ≠ []) :
    ∃ body, input = body ++ quote :: rest ∧
      ∀ rest', scanData (.value quote) (body ++ quote :: rest') =
      .ok (data, rest') := by
  obtain ⟨hfrom, hfault⟩ := scanData_eq_ok_iff.1 h
  obtain ⟨body, hinput, -, hread⟩ := exists_of_scanDataFrom_value hfrom hrest
  exact ⟨body, hinput, fun rest' => scanData_eq_ok_iff.2 ⟨hread rest', hfault⟩⟩

theorem scanValue_eq_ok_iff {rest : Rest input} :
    scanValue input = .ok (v, rest) ↔
      ∃ quote t, skipSpace input = quote :: t ∧ (quote = 0x22 ∨ quote = 0x27) ∧
        scanData (.value quote) t = .ok (v, rest.1) := by
  unfold scanValue
  constructor
  · intro h
    split at h
    next => cases h
    next quote t hs =>
      split at h
      next hquote =>
        split at h
        next => cases h
        next v' rest' hdata =>
          cases h
          exact ⟨quote, t, hs, hquote, hdata⟩
      next => cases h
  · rintro ⟨quote, t, hs, hquote, hdata⟩
    split
    next hnil => simp [hs] at hnil
    next quote' t' hs' =>
      obtain ⟨rfl, rfl⟩ := List.cons.inj (hs.symm.trans hs')
      rw [if_pos hquote]
      split
      next e herror => simp [hdata] at herror
      next v' rest' hdata' =>
        obtain ⟨rest, hlt⟩ := rest
        cases hdata.symm.trans hdata'
        rfl

/-- A value that is not closed takes all that is left, so one with something
behind it is closed. -/
theorem exists_of_scanValue {rest : Rest input}
    (h : scanValue input = .ok (v, rest)) (hrest : rest.1 ≠ []) :
    ∃ gap quoted, IsGap gap ∧ QuotedText quoted v ∧
      input = gap ++ (quoted ++ rest.1) := by
  obtain ⟨quote, t, hs, hquote, hdata⟩ := scanValue_eq_ok_iff.1 h
  obtain ⟨gap, hgap, hinput⟩ := exists_isGap input
  obtain ⟨body, rfl, hread⟩ := exists_of_scanData_value hdata hrest
  refine ⟨gap, _, hgap, ⟨quote, body, hquote, rfl, hread⟩, ?_⟩
  rw [hs] at hinput
  simp [hinput]

theorem scanValue_of_quotedText {quoted : Text} (hgap : IsGap gap)
    (hquoted : QuotedText quoted v) (rest : Text) :
    ∃ hlt, scanValue (gap ++ (quoted ++ rest)) = .ok (v, ⟨rest, hlt⟩) := by
  obtain ⟨quote, body, hquote, rfl, hread⟩ := hquoted
  have hspace : isSpaceByte quote = false := by
    rcases hquote with rfl | rfl <;> rfl
  have hs : skipSpace (gap ++ (quote :: (body ++ [quote]) ++ rest)) =
      quote :: (body ++ quote :: rest) := by
    simpa using skipSpace_append hgap hspace (body ++ quote :: rest)
  refine ⟨?_, scanValue_eq_ok_iff.2 ⟨quote, _, hs, hquote, hread rest⟩⟩
  rw [← List.append_assoc]
  exact length_lt_append (by simp) rest

/-! ## Opening tags -/

/-- What stands behind the name of an opening tag: its attributes and its end.
-/
inductive AttributesText : Text → List Attribute → Bool → Prop
  | close {gap : Text} : IsGap gap → AttributesText (gap ++ [0x3E]) [] false
  | closeEmpty {gap : Text} : IsGap gap →
  AttributesText (gap ++ [0x2F, 0x3E]) [] true
  | cons {gap name gap' gap'' quoted tail v : Text} {n : Name}
  {attributes : List Attribute} {empty : Bool} :
      IsGap gap → NameText name n → IsGap gap' → IsGap gap'' →
      QuotedText quoted v →
      AttributesText tail attributes empty →
      AttributesText
      (gap ++ (name ++ (gap' ++ 0x3D :: (gap'' ++ (quoted ++ tail)))))
      (⟨n, v⟩ :: attributes) empty

theorem AttributesText.exists_concat (h : AttributesText t attributes empty) :
    ∃ inner, t = inner ++ [0x3E] := by
  induction h with
  | @close gap hgap => exact ⟨gap, rfl⟩
  | @closeEmpty gap hgap => exact ⟨gap ++ [0x2F], by simp⟩
  | @cons gap name gap' gap'' quoted _ _ _ _ _ _ _ _ _ _ _ ih =>
    obtain ⟨inner, rfl⟩ := ih
    exact ⟨gap ++
      (name ++ (gap' ++ 0x3D :: (gap'' ++ (quoted ++ inner)))), by simp⟩

theorem exists_of_scanAttributes {rest : Rest input}
    (h : scanAttributes input = .ok (attributes, empty, rest)) :
    ∃ body, AttributesText body attributes empty ∧ input = body ++ rest.1 := by
  fun_induction scanAttributes input generalizing attributes empty with
  | case3 input tail hs =>
    cases h
    obtain ⟨gap, hgap, hinput⟩ := exists_isGap input
    exact ⟨_, .closeEmpty hgap, by simpa [hs] using hinput⟩
  | case5 input tail hs =>
    cases h
    obtain ⟨gap, hgap, hinput⟩ := exists_isGap input
    exact ⟨_, .close hgap, by simpa [hs] using hinput⟩
  | case10 input n afterSign v afterValue hvalue attributes' empty' rest' hmore
    _ _ _ _ afterName hname hs hlt ih =>
    cases h
    obtain ⟨tail, htail, hafter⟩ := ih hmore
    have hne : afterValue.1 ≠ [] :=
      List.ne_nil_of_length_pos (Nat.zero_lt_of_lt rest'.2)
    obtain ⟨gap, hgap, hinput⟩ := exists_isGap input
    obtain ⟨name, b, t, hnameText, htag, hafterName, -⟩ :=
      scanName_eq_ok_iff.1 hname
    obtain ⟨gap', hgap', hsign⟩ := exists_isGap afterName.1
    obtain ⟨gap'', quoted, hgap'', hquoted, hafterSign⟩ :=
      exists_of_scanValue hvalue hne
    refine ⟨_, .cons hgap hnameText hgap' hgap'' hquoted htail, ?_⟩
    rw [hs, hafterSign, hafter] at hsign
    rw [htag, ← hafterName, hsign] at hinput
    simpa using hinput
  | _ => cases h

theorem scanAttributes_close (hs : skipSpace input = 0x3E :: rest)
    (hlt : rest.length < input.length) :
    scanAttributes input = .ok ([], false, ⟨rest, hlt⟩) := by
  rw [scanAttributes]
  split <;> simp_all

theorem scanAttributes_closeEmpty (hs : skipSpace input = 0x2F :: 0x3E :: rest)
    (hlt : rest.length < input.length) :
    scanAttributes input = .ok ([], true, ⟨rest, hlt⟩) := by
  rw [scanAttributes]
  split <;> simp_all

theorem scanAttributes_cons {tag afterSign : Text} {afterName : Rest tag}
    {afterValue : Rest afterSign} {hmore : rest.length < afterValue.1.length}
    (htag : skipSpace input = tag)
    (hname : scanName .noAttributeName tag = .ok (n, afterName))
    (hsign : skipSpace afterName.1 = 0x3D :: afterSign)
    (hvalue : scanValue afterSign = .ok (v, afterValue))
    (htail : scanAttributes afterValue.1 =
      .ok (attributes, empty, ⟨rest, hmore⟩))
      (hlt : rest.length < input.length) :
    scanAttributes input = .ok (⟨n, v⟩ :: attributes, empty, ⟨rest, hlt⟩) := by
  subst htag
  obtain ⟨name, b, t, hnameText, htag, -, -⟩ := scanName_eq_ok_iff.1 hname
  obtain ⟨c, name', rfl, hc⟩ := hnameText.exists_cons
  have hslash : c ≠ 0x2F := ne_of_isNameByte hc rfl
  have hclose : c ≠ 0x3E := ne_of_isNameByte hc rfl
  rw [scanAttributes]
  split
  next hs => simp [hs] at htag
  next hs => simp [hs, hslash.symm] at htag
  next hs => simp [hs, hslash.symm] at htag
  next hs => simp [hs, hclose.symm] at htag
  next =>
    simp only [hname]
    split
    next hs => simp [hs] at hsign
    next e t' hs =>
      obtain ⟨rfl, rfl⟩ := List.cons.inj (hsign.symm.trans hs)
      simp only [hvalue, htail, if_pos]

theorem scanAttributes_of_attributesText
    (h : AttributesText body attributes empty) (rest : Text) :
    ∃ hlt, scanAttributes (body ++ rest) =
      .ok (attributes, empty, ⟨rest, hlt⟩) := by
  induction h with
  | @close gap hgap =>
    have hs : skipSpace (gap ++ [0x3E] ++ rest) = 0x3E :: rest := by
      simpa using skipSpace_append hgap rfl rest
    exact ⟨length_lt_append (by simp) rest, scanAttributes_close hs _⟩
  | @closeEmpty gap hgap =>
    have hs : skipSpace (gap ++ [0x2F, 0x3E] ++ rest) =
        0x2F :: 0x3E :: rest := by
      simpa using skipSpace_append hgap rfl (0x3E :: rest)
    exact ⟨length_lt_append (by simp) rest, scanAttributes_closeEmpty hs _⟩
  | @cons gap name gap' gap'' quoted tail v n attributes empty hgap hname hgap'
    hgap'' hquoted htail ih =>
    obtain ⟨hmore, hattributes⟩ := ih
    obtain ⟨hbehind, hvalue⟩ :=
      scanValue_of_quotedText hgap'' hquoted (tail ++ rest)
    have hsign :=
      skipSpace_append hgap' (b := 0x3D) rfl
        (gap'' ++ (quoted ++ (tail ++ rest)))
    have hstop :=
      exists_cons_of_isGap (b := 0x3D) hgap' rfl
        (gap'' ++ (quoted ++ (tail ++ rest)))
    obtain ⟨hafter, hscan⟩ := scanName_of_nameText hname hstop .noAttributeName
    have hlt : rest.length <
        (gap ++ (name ++ (gap' ++ 0x3D :: (gap'' ++ (quoted ++ tail)))) ++
        rest).length :=
      length_lt_append (by simp) rest
    refine ⟨hlt, scanAttributes_cons ?_ hscan hsign hvalue hattributes hlt⟩
    obtain ⟨c, name', rfl, hc⟩ := hname.exists_cons
    simpa using skipSpace_append hgap (isSpaceByte_of_isNameByte hc)
      (name' ++ (gap' ++ 0x3D :: (gap'' ++ (quoted ++ (tail ++ rest)))))

/-- The written form of an opening tag, from `<` to `>`. What stands behind the
name must not continue it. -/
def TagText (t : Text) (n : Name) (attributes : List Attribute)
    (empty : Bool) : Prop :=
  ∃ name b body, NameText name n ∧ isNameByte b = false ∧
    AttributesText (b :: body) attributes empty ∧
    t = 0x3C :: (name ++ b :: body)

theorem TagText.exists_bracketed (h : TagText t n attributes empty) :
    ∃ inner, t = 0x3C :: (inner ++ [0x3E]) := by
  obtain ⟨name, b, body, -, -, hbody, rfl⟩ := h
  obtain ⟨inner, hinner⟩ := hbody.exists_concat
  exact ⟨name ++ inner, by rw [hinner, List.append_assoc]⟩

theorem scanOpening_eq_ok_iff :
    scanOpening input = .ok (token, rest) ↔
      ∃ n attributes empty tag, token = .opening n attributes empty ∧
      TagText tag n attributes empty ∧
        0x3C :: input = tag ++ rest := by
  unfold scanOpening
  constructor
  · intro h
    split at h
    next => cases h
    next n' afterName hname =>
      split at h
      next => cases h
      next attributes' empty' rest' hattributes =>
        cases h
        obtain ⟨name, b, t, hnameText, hinput, hafter, hb⟩ :=
          scanName_eq_ok_iff.1 hname
        obtain ⟨body, hbody, hsplit⟩ := exists_of_scanAttributes hattributes
        replace hsplit := hafter.symm.trans hsplit
        cases body with
        | nil =>
          obtain ⟨inner, hnil⟩ := hbody.exists_concat
          simp at hnil
        | cons c body =>
          obtain ⟨rfl, rfl⟩ := List.cons.inj hsplit
          exact ⟨n', attributes', empty', _, rfl,
            ⟨name, b, body, hnameText, hb, hbody, rfl⟩, by simp [hinput]⟩
  · rintro ⟨n, attributes, empty, tag, rfl,
      ⟨name, b, body, hname, hb, hbody, rfl⟩, hinput⟩
    obtain ⟨hlt, hattributes⟩ := scanAttributes_of_attributesText hbody rest
    obtain ⟨hafter, hscan⟩ :=
      scanName_of_nameText hname ⟨b, body ++ rest, rfl, hb⟩ .noElementName
    obtain rfl : input = name ++ (b :: body ++ rest) := by
      simpa using hinput
    simp only [List.cons_append] at hattributes ⊢
    simp only [hscan, hattributes]

/-! ## Tokens -/

theorem exists_of_scanClosing (h : scanClosing input = .ok (token, rest)) :
    (∃ n, token = .closing n) ∧ rest <:+ input := by
  unfold scanClosing at h
  split at h
  next => cases h
  next n afterName hname =>
    split at h
    next => cases h
    next b t hs =>
      split at h
      next =>
        cases h
        obtain ⟨name, c, t, -, hinput, hafter, -⟩ := scanName_eq_ok_iff.1 hname
        obtain ⟨gap, -, hgap⟩ := exists_isGap afterName.1
        rw [hs, hafter] at hgap
        exact ⟨⟨n, rfl⟩, ⟨name ++ (gap ++ [b]), by simp [hinput, hgap]⟩⟩
      next => cases h

theorem exists_of_scanProcessing
    (h : scanProcessing input = .ok (token, rest)) :
    token = .other ∧ rest <:+ input := by
  unfold scanProcessing at h
  split at h
  next => cases h
  next target afterName hname =>
    split at h
    next => cases h
    next body t hbody =>
      split at h
      next => cases h
      next =>
        cases h
        obtain ⟨-, -, c, t, hinput, hafter, -⟩ :=
          scanPlainName_eq_ok_iff.1 hname
        have hname' : afterName.1 <:+ input := ⟨target, by rw [hafter, hinput]⟩
        exact ⟨rfl, (suffix_of_scanInstruction hbody).trans
          ((skipSpace_suffix _).trans hname')⟩

theorem exists_of_scanSpecial (h : scanSpecial input = .ok (token, rest)) :
    (token = .other ∨ ∃ data, token = .text data) ∧ rest <:+ input := by
  unfold scanSpecial at h
  split at h
  next => cases h
  next => cases h
  next b t =>
    split at h
    next =>
      obtain ⟨rest', hcomment, heq⟩ := Chain.map_eq_ok_iff.1 h
      cases heq
      exact ⟨.inl rfl,
        ((suffix_of_scanComment hcomment).trans (List.suffix_cons b t)).trans
        (List.suffix_cons _ _)⟩
    next => cases h
  next t =>
    split at h
    next => cases h
    next body hword =>
      obtain ⟨⟨data, rest'⟩, hdata, heq⟩ := Chain.map_eq_ok_iff.1 h
      cases heq
      have hsuffix :=
        (suffix_of_scanData hdata).trans (suffix_of_scanSectionWord hword)
      exact ⟨.inr ⟨data, rfl⟩, hsuffix.trans (List.suffix_cons _ _)⟩
  next b t _ _ _ =>
    obtain ⟨rest', hdeclaration, heq⟩ := Chain.map_eq_ok_iff.1 h
    cases heq
    exact ⟨.inl rfl, (suffix_of_scanDeclaration hdeclaration).trans
      (List.suffix_cons _ _)⟩

/-- An opening tag is read exactly from its written form. -/
theorem scan_opening_iff :
    Token.scan b input = .ok (.opening n attributes empty, rest) ↔
      ∃ tag, TagText tag n attributes empty ∧ b :: input = tag ++ rest := by
  unfold Token.scan
  constructor
  · intro h
    split at h
    next hb =>
      subst hb
      unfold scanMarkup at h
      split at h
      next => cases h
      next => simpa using (exists_of_scanClosing h).1
      next => simpa using (exists_of_scanProcessing h).1
      next => simpa using (exists_of_scanSpecial h).1
      next =>
        obtain ⟨n', attributes', empty', tag, heq, htag, hinput⟩ :=
          scanOpening_eq_ok_iff.1 h
        cases heq
        exact ⟨tag, htag, hinput⟩
    next =>
      obtain ⟨⟨data, rest'⟩, -, heq⟩ := Chain.map_eq_ok_iff.1 h
      cases heq
  · rintro ⟨tag, htag, hinput⟩
    obtain ⟨name, c, body, hname, -, -, rfl⟩ := id htag
    obtain ⟨d, name', rfl, hd⟩ := hname.exists_cons
    obtain ⟨rfl, rfl⟩ := List.cons.inj hinput
    have hopening :=
      scanOpening_eq_ok_iff.2 ⟨n, attributes, empty, _, rfl, htag, hinput⟩
    rw [if_pos rfl, ← hopening]
    have hslash : d ≠ 0x2F := ne_of_isNameByte hd rfl
    have hmark : d ≠ 0x3F := ne_of_isNameByte hd rfl
    have hbang : d ≠ 0x21 := ne_of_isNameByte hd rfl
    apply scanMarkup.eq_5 <;> simp [hslash, hmark, hbang]

theorem suffix_of_scanMarkup (h : scanMarkup input = .ok (token, rest)) :
    rest <:+ 0x3C :: input := by
  unfold scanMarkup at h
  split at h
  next => cases h
  next t =>
    exact ((exists_of_scanClosing h).2.trans (List.suffix_cons _ t)).trans
      (List.suffix_cons _ _)
  next t =>
    exact ((exists_of_scanProcessing h).2.trans (List.suffix_cons _ t)).trans
      (List.suffix_cons _ _)
  next t =>
    exact ((exists_of_scanSpecial h).2.trans (List.suffix_cons _ t)).trans
      (List.suffix_cons _ _)
  next =>
    obtain ⟨-, -, -, tag, -, -, hinput⟩ := scanOpening_eq_ok_iff.1 h
    exact ⟨tag, hinput.symm⟩

/-- What a token leaves is the end of the text, without its first byte. -/
theorem suffix_of_scan (h : Token.scan b input = .ok (token, rest)) :
    rest <:+ input := by
  have hlength := Token.length_scan_le h
  have hsuffix : rest <:+ b :: input := by
    unfold Token.scan at h
    split at h
    next hb => exact hb ▸ suffix_of_scanMarkup h
    next =>
      obtain ⟨⟨data, rest'⟩, hdata, heq⟩ := Chain.map_eq_ok_iff.1 h
      cases heq
      exact suffix_of_scanData hdata
  rcases List.suffix_cons_iff.1 hsuffix with rfl | hsuffix
  · exact absurd hlength (Nat.not_succ_le_self _)
  · exact hsuffix

end Markup

end ProtocolCorpus
