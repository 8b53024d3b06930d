import ProtocolCorpus.Markup.Fault
import ProtocolCorpus.Markup.Name

/-!
# Tokens of markup

A marked-up text is a row of tokens: opening and closing tags, character data,
and comments, declarations and instructions that carry nothing for a reader of
elements. `Token.scan` reads one token from the front of a text and returns what
is left, which is always shorter.

Positions are not part of the reading: an offset is the number of bytes read,
and a line the number of line feeds among them, so both follow from what is
left.
-/

namespace ProtocolCorpus

namespace Markup

structure Attribute where
  name : Name
  value : Text
  deriving DecidableEq, Repr, Inhabited

inductive Token
  /-- An opening tag, or an empty element if it closes itself. -/
  | opening (name : Name) (attributes : List Attribute) (empty : Bool)
  | closing (name : Name)
  /-- Character data with escapes replaced, or the literal text of a section. -/
  | text (data : Text)
  /-- A comment, declaration or instruction. -/
  | other
  deriving DecidableEq, Repr

def isSpaceByte (b : UInt8) : Bool :=
  b == 0x20 || b == 0x0D || b == 0x0A || b == 0x09

def skipSpace (t : Text) : Text :=
  t.dropWhile isSpaceByte

theorem length_dropWhile_le (p : UInt8 → Bool)
    (t : Text) : (t.dropWhile p).length ≤ t.length :=
  (List.dropWhile_sublist p).length_le

theorem length_skipSpace_le (t : Text) : (skipSpace t).length ≤ t.length :=
  length_dropWhile_le isSpaceByte t

theorem length_dropWhile_lt
    {p : UInt8 → Bool} {t : Text}
    (h : t.takeWhile p ≠ []) : (t.dropWhile p).length < t.length := by
  have hsplit : (t.takeWhile p ++ t.dropWhile p).length = t.length := by
    rw [List.takeWhile_append_dropWhile]
  have hpos : 0 < (t.takeWhile p).length := List.length_pos_iff.2 h
  rw [List.length_append] at hsplit
  omega

/-- The bytes that may form a name at the front of the text. They must be
followed by something else. -/
def scanNameBytes (input : Text) :
    Except Failure (Option (Text × Rest input)) :=
  if (input.dropWhile isNameByte).isEmpty then .error ⟨.unexpectedEnd, []⟩
  else if h : input.takeWhile isNameByte = [] then .ok none
  else .ok
    (some (input.takeWhile isNameByte,
    ⟨input.dropWhile isNameByte, length_dropWhile_lt h⟩))

/-- A name at the front of the text; `missing` says that there is none. -/
def scanPlainName (missing : Fault)
    (input : Text) : Except Failure (Text × Rest input) :=
  match scanNameBytes input with
  | .error e => .error e
  | .ok none => .error ⟨missing, input⟩
  | .ok (some (name, rest)) =>
    if isName name then .ok (name, rest) else .error ⟨.invalidName name, rest⟩

/-- A name divided at its colon; `missing` says that there is none. -/
def scanName (missing : Fault)
    (input : Text) : Except Failure (Name × Rest input) :=
  match scanPlainName missing input with
  | .error e => .error e
  | .ok (name, rest) =>
    match Name.ofText? name with
    | some n => .ok (n, rest)
    | none => .error ⟨missing, rest⟩

def namedCharacter? (name : Text) : Option Text :=
  if name == "lt" then some "<"
  else if name == "gt" then some ">"
  else if name == "amp" then some "&"
  else if name == "apos" then some "'"
  else if name == "quot" then some "\""
  else none

/-- The end of an escape: `body` was read behind the ampersand, and the escape
stands for `meaning` if it is closed by a semicolon. The result says what it
means and how many bytes it takes. -/
def closeEscape (body : Text) (meaning : Option Text) : (rest : Text) →
    Except Failure (Text × Nat)
  | [] => .error ⟨.unexpectedEnd, []⟩
  | b :: rest =>
    if b = 0x3B then
      match meaning with
      | some t => .ok (t, body.length + 1)
      | none => .error ⟨.invalidEntity ("&" ++ body ++ ";") true, rest⟩
    else .error ⟨.invalidEntity ("&" ++ body) false, b :: rest⟩

def numberedCharacter? (base : Nat) (digits : Text) : Option Text :=
  match Text.natOfDigits? base digits with
  | some n => if n ≤ 0x10FFFF then some (Text.ofCode n) else none
  | none => none

def scanEscape : (rest : Text) → Except Failure (Text × Nat)
  | [] => .error ⟨.unexpectedEnd, []⟩
  | 0x23 :: [] => .error ⟨.unexpectedEnd, []⟩
  | 0x23 :: 0x78 :: rest =>
    let isHex := fun b => (Text.digitValue? b).isSome
    let digits := rest.takeWhile isHex
    closeEscape ("#x" ++ digits) (numberedCharacter? 16 digits)
      (rest.dropWhile isHex)
  | 0x23 :: rest =>
    let digits := rest.takeWhile Text.isDigit
    closeEscape ("#" ++ digits) (numberedCharacter? 10 digits)
      (rest.dropWhile Text.isDigit)
  | rest =>
    let name := rest.takeWhile isNameByte
    closeEscape name (if isName name then namedCharacter? name else none)
      (rest.dropWhile isNameByte)

/-- Where character data stands, which decides where it ends and what is special
in it. -/
inductive DataPlace
  | content
  /-- In an attribute value, up to the given quote. -/
  | value (quote : UInt8)
  | literal
  deriving DecidableEq, Repr

/-- How much of the data has been read: the data back to front, and the last two
bytes as written. -/
structure DataState where
  data : Text := []
  older : UInt8 := 0
  newer : UInt8 := 0

/-- One byte more that stands for itself; all line ends become line feeds. -/
def DataState.push (s : DataState) (b : UInt8) : DataState :=
  { data := if b = 0x0D then 0x0A :: s.data
      else if s.newer = 0x0D ∧ b = 0x0A then s.data
      else b :: s.data
    older := s.newer
    newer := b }

def DataState.pushEscape (s : DataState) (t : Text) : DataState :=
  { data := t.reverse ++ s.data }

/-- The last two bytes and `b` end a section of literal text. -/
def DataState.endsSection (s : DataState) (b : UInt8) : Bool :=
  s.older == 0x5D && s.newer == 0x5D && b == 0x3E

/-- Character data back to front, and what is left behind it, after `skip` bytes
that belong to an escape have been passed over. An attribute value that does
not end is closed by the end of the text; the tag around it then is not. -/
def scanDataFrom (place : DataPlace) (s : DataState) :
    (skip : Nat) → (input : Text) → Except Failure (Text × Text)
  | _, [] =>
    if place = .literal then .error ⟨.unexpectedEndInSection, []⟩
    else .ok (s.data, [])
  | skip + 1, _ :: rest => scanDataFrom place s skip rest
  | 0, b :: rest =>
    match place with
    | .literal =>
      if s.endsSection b then .ok (s.data.drop 2, rest)
      else scanDataFrom place (s.push b) 0 rest
    | .content =>
      if s.endsSection b then .error ⟨.sectionEndInText, rest⟩
      else if b = 0x3C then .ok (s.data, b :: rest)
      else if b = 0x26 then
        match scanEscape rest with
        | .error e => .error e
        | .ok (t, n) => scanDataFrom place (s.pushEscape t) n rest
      else scanDataFrom place (s.push b) 0 rest
    | .value quote =>
      if b = 0x3C then .error ⟨.openBracketInValue, rest⟩
      else if b = quote then .ok (s.data, rest)
      else if b = 0x26 then
        match scanEscape rest with
        | .error e => .error e
        | .ok (t, n) => scanDataFrom place (s.pushEscape t) n rest
      else scanDataFrom place (s.push b) 0 rest

def isDataCode (n : Nat) : Bool :=
  n == 0x09 || n == 0x0A || n == 0x0D || (0x20 ≤ n && n ≤ 0xD7FF) ||
    (0xE000 ≤ n && n ≤ 0xFFFD)
    || (0x10000 ≤ n && n ≤ 0x10FFFF)

def dataFault? (data : Text) : Option Fault :=
  (Text.scalars data).findSome? fun s =>
    match s with
    | .stray _ => some .notUtf8
    | .char c =>
      if isDataCode c.toNat then none else some (.illegalCharacter c.toNat)

def scanData (place : DataPlace)
    (input : Text) : Except Failure (Text × Text) :=
  match scanDataFrom place {} 0 input with
  | .error e => .error e
  | .ok (reversed, rest) =>
    let data := reversed.reverse
    match dataFault? data with
    | some f => .error ⟨f, rest⟩
    | none => .ok (data, rest)

theorem length_scanDataFrom_le
    {place : DataPlace} {s : DataState} {skip : Nat} {input data rest : Text}
    (h : scanDataFrom place s skip input = .ok (data, rest)) : rest.length ≤
    input.length := by
  fun_induction scanDataFrom place s skip input <;> grind

theorem length_scanData_le
    {place : DataPlace} {input data rest : Text}
    (h : scanData place input = .ok (data, rest)) : rest.length ≤
    input.length := by
  unfold scanData at h
  split at h
  · cases h
  · rename_i reversed rest' heq
    have hle := length_scanDataFrom_le heq
    grind

def scanValue (input : Text) : Except Failure (Text × Rest input) :=
  match hs : skipSpace input with
  | [] => .error ⟨.unexpectedEnd, []⟩
  | b :: rest =>
    if b = 0x22 ∨ b = 0x27 then
      match hd : scanData (.value b) rest with
      | .error e => .error e
      | .ok (data, rest') =>
        .ok (data, ⟨rest', by
          have h1 := length_scanData_le hd
          have h2 := length_skipSpace_le input
          rw [hs] at h2
          simp only [List.length_cons] at h2
          omega⟩)
    else .error ⟨.unquotedValue, rest⟩

/-- The attributes of an opening tag, whether it closes itself, and what is left
behind it. -/
def scanAttributes (input : Text) :
    Except Failure (List Attribute × Bool × Rest input) :=
  match hs : skipSpace input with
  | [] => .error ⟨.unexpectedEnd, []⟩
  | 0x2F :: [] => .error ⟨.unexpectedEnd, []⟩
  | 0x2F :: b :: rest =>
    if b = 0x3E then
      .ok ([], true, ⟨rest, by
        have h := length_skipSpace_le input
        rw [hs] at h
        simp only [List.length_cons] at h
        omega⟩)
    else .error ⟨.unclosedEmptyTag, rest⟩
  | 0x3E :: rest =>
    .ok ([], false, ⟨rest, by
      have h := length_skipSpace_le input
      rw [hs] at h
      simp only [List.length_cons] at h
      omega⟩)
  | tag =>
    match scanName .noAttributeName tag with
    | .error e => .error e
    | .ok (name, afterName) =>
      match he : skipSpace afterName.1 with
      | [] => .error ⟨.unexpectedEnd, []⟩
      | e :: afterSign =>
        if e = 0x3D then
          match scanValue afterSign with
          | .error e => .error e
          | .ok (value, afterValue) =>
            have hlt : afterValue.1.length < input.length := by
              have h1 := length_skipSpace_le input
              rw [hs] at h1
              have h2 := afterName.2
              have h3 := length_skipSpace_le afterName.1
              rw [he] at h3
              simp only [List.length_cons] at h3
              have h4 := afterValue.2
              omega
            match scanAttributes afterValue.1 with
            | .error e => .error e
            | .ok (attributes, empty, rest) =>
              .ok (⟨name, value⟩ :: attributes, empty,
                ⟨rest.1, Nat.lt_trans rest.2 hlt⟩)
        else .error ⟨.noAttributeValue, afterSign⟩
termination_by input.length

/-- The rest behind the end `-->` of a comment. -/
def scanComment : Text → Except Failure Text
  | 0x2D :: 0x2D :: 0x3E :: rest => .ok rest
  | 0x2D :: 0x2D :: _ :: rest => .error ⟨.hyphensInComment, rest⟩
  | [0x2D, 0x2D] => .error ⟨.unexpectedEnd, []⟩
  | _ :: rest => scanComment rest
  | [] => .error ⟨.unexpectedEnd, []⟩

def scanInstruction : Text → Except Failure (Text × Text)
  | 0x3F :: 0x3E :: rest => .ok ([], rest)
  | b :: rest =>
    match scanInstruction rest with
    | .ok (t, rest') => .ok (b :: t, rest')
    | .error e => .error e
  | [] => .error ⟨.unexpectedEnd, []⟩

inductive DeclarationState
  | plain
  | quoted (quote : UInt8)
  /-- Behind `<` and so many bytes of `!--`. -/
  | bracket (seen : Nat)
  /-- Inside a comment, behind so many hyphens. -/
  | comment (hyphens : Nat)
  deriving DecidableEq, Repr

/-- The state and the depth of brackets after a byte outside quotes and
comments. -/
def DeclarationState.afterPlain (depth : Nat)
    (b : UInt8) : DeclarationState × Nat :=
  if b = 0x3E then (.plain, depth - 1)
  else if b = 0x22 ∨ b = 0x27 then (.quoted b, depth)
  else if b = 0x3C then (.bracket 0, depth)
  else (.plain, depth)

/-- The state and the depth of brackets after a byte that does not end the
declaration. A bracket counts unless it opens a comment. -/
def DeclarationState.after (depth : Nat) (b : UInt8) : DeclarationState →
    DeclarationState × Nat
  | .plain => afterPlain depth b
  | .quoted quote =>
    if b = quote then (.plain, depth) else (.quoted quote, depth)
  | .bracket 0 =>
    if b = 0x21 then (.bracket 1, depth) else afterPlain (depth + 1) b
  | .bracket 1 =>
    if b = 0x2D then (.bracket 2, depth) else afterPlain (depth + 1) b
  | .bracket _ =>
    if b = 0x2D then (.comment 0, depth) else afterPlain (depth + 1) b
  | .comment hyphens =>
    if b = 0x3E ∧ 2 ≤ hyphens then (.plain, depth)
    else if b = 0x2D then (.comment (hyphens + 1), depth)
    else (.comment 0, depth)

/-- The rest behind the end of a declaration: the `>` that no bracket, quote or
comment holds back. -/
def scanDeclaration (state : DeclarationState) (depth : Nat) : Text →
    Except Failure Text
  | [] => .error ⟨.unexpectedEnd, []⟩
  | b :: rest =>
    if state = .plain ∧ b = 0x3E ∧ depth = 0 then .ok rest
    else scanDeclaration (state.after depth b).1 (state.after depth b).2 rest

/-- The text behind the first place where `sub` occurs. -/
def behind? (sub : Text) : Text → Option Text
  | [] => none
  | b :: t =>
    match Text.stripFront? sub (b :: t) with
    | some rest => some rest
    | none => behind? sub t

theorem length_stripFront?_le
    {p t rest : Text}
    (h : Text.stripFront? p t = some rest) : rest.length ≤ t.length := by
  fun_induction Text.stripFront? p t <;> grind

theorem length_behind?_le
    {sub t rest : Text}
    (h : behind? sub t = some rest) : rest.length ≤ t.length := by
  induction t with
  | nil => simp [behind?] at h
  | cons b t ih =>
    rw [behind?] at h
    split at h
    · rename_i rest' heq
      have hle := length_stripFront?_le heq
      grind
    · have hle := ih h
      simp only [List.length_cons]
      omega

/-- The quoted value that follows `key` in the text of an instruction; empty if
there is none. -/
def instructionValue (key : Text) (t : Text) : Text :=
  match _h : behind? key t with
  | none => []
  | some [] => []
  | some (b :: rest) =>
    if b = 0x22 ∨ b = 0x27 then
      match Text.cut b rest with
      | some (value, _) => value
      | none => []
    else instructionValue key rest
termination_by t.length
decreasing_by
  have hle := length_behind?_le _h
  simp only [List.length_cons] at hle
  omega

def instructionFault? (target body : Text) : Option Fault :=
  if target == "xml" then
    let version := instructionValue "version=" body
    let encoding := instructionValue "encoding=" body
    if !version.isEmpty && version != "1.0" then
      some (.unsupportedVersion version)
    else if !encoding.isEmpty && !Text.equalsFolded encoding "utf-8" then
      some (.unsupportedEncoding encoding)
    else none
  else none

theorem length_scanComment_le
    {t rest : Text}
    (h : scanComment t = .ok rest) : rest.length ≤ t.length := by
  fun_induction scanComment t <;> grind

theorem length_scanInstruction_le
    {t body rest : Text}
    (h : scanInstruction t = .ok (body, rest)) : rest.length ≤ t.length := by
  fun_induction scanInstruction t generalizing body rest <;> grind

theorem length_scanDeclaration_le
    {state : DeclarationState} {depth : Nat} {t rest : Text}
    (h : scanDeclaration state depth t = .ok rest) : rest.length ≤
    t.length := by
  fun_induction scanDeclaration state depth t <;> grind

def scanClosing (input : Text) : Except Failure (Token × Text) :=
  match scanName .noClosingName input with
  | .error e => .error e
  | .ok (name, afterName) =>
    match skipSpace afterName.1 with
    | [] => .error ⟨.unexpectedEnd, []⟩
    | b :: rest =>
      if b = 0x3E then .ok (.closing name, rest)
      else .error ⟨.trailingInClosingTag name.localName, rest⟩

def scanProcessing (input : Text) : Except Failure (Token × Text) :=
  match scanPlainName .noTargetName input with
  | .error e => .error e
  | .ok (target, afterName) =>
    match scanInstruction (skipSpace afterName.1) with
    | .error e => .error e
    | .ok (body, rest) =>
      match instructionFault? target body with
      | some f => .error ⟨f, rest⟩
      | none => .ok (.other, rest)

/-- The word that opens a section of literal text, read byte by byte from behind
`<![`. -/
def scanSectionWord : (word input : Text) → Except Failure Text
  | [], input => .ok input
  | _ :: _, [] => .error ⟨.unexpectedEnd, []⟩
  | w :: word, b :: rest =>
    if b = w then scanSectionWord word rest else .error ⟨.brokenSection, rest⟩

/-- A comment, a section of literal text or a declaration, from behind `<!`. The
first byte of a declaration is passed over whatever it is. -/
def scanSpecial : (input : Text) → Except Failure (Token × Text)
  | [] => .error ⟨.unexpectedEnd, []⟩
  | 0x2D :: [] => .error ⟨.unexpectedEnd, []⟩
  | 0x2D :: b :: rest =>
    if b = 0x2D then (scanComment rest).map fun rest' => (.other, rest')
    else .error ⟨.brokenComment, rest⟩
  | 0x5B :: rest =>
    match scanSectionWord "CDATA[" rest with
    | .error e => .error e
    | .ok body =>
      (scanData .literal body).map fun (data, rest') => (.text data, rest')
  | _ :: rest =>
    (scanDeclaration .plain 0 rest).map fun rest' => (.other, rest')

def scanOpening (input : Text) : Except Failure (Token × Text) :=
  match scanName .noElementName input with
  | .error e => .error e
  | .ok (name, afterName) =>
    match scanAttributes afterName.1 with
    | .error e => .error e
    | .ok (attributes, empty, rest) =>
      .ok (.opening name attributes empty, rest.1)

/-- A tag or another piece of markup, from behind its `<`. -/
def scanMarkup : (input : Text) → Except Failure (Token × Text)
  | [] => .error ⟨.unexpectedEnd, []⟩
  | 0x2F :: rest => scanClosing rest
  | 0x3F :: rest => scanProcessing rest
  | 0x21 :: rest => scanSpecial rest
  | input => scanOpening input

theorem length_scanSectionWord_le
    {word t rest : Text}
    (h : scanSectionWord word t = .ok rest) : rest.length ≤ t.length := by
  fun_induction scanSectionWord word t <;> grind

theorem length_scanClosing_le
    {input rest : Text} {token : Token}
    (h : scanClosing input = .ok (token, rest)) : rest.length ≤
    input.length := by
  unfold scanClosing at h
  split at h
  · cases h
  · rename_i name afterName _
    have h1 := afterName.2
    have h2 := length_skipSpace_le afterName.1
    grind

theorem length_scanProcessing_le
    {input rest : Text} {token : Token}
    (h : scanProcessing input = .ok (token, rest)) : rest.length ≤
    input.length := by
  unfold scanProcessing at h
  split at h
  · cases h
  · rename_i target afterName _
    have h1 := afterName.2
    have h2 := length_skipSpace_le afterName.1
    split at h
    · cases h
    · rename_i body rest' heq
      have h3 := length_scanInstruction_le heq
      grind

theorem length_scanOpening_le
    {input rest : Text} {token : Token}
    (h : scanOpening input = .ok (token, rest)) : rest.length ≤
    input.length := by
  unfold scanOpening at h
  split at h
  · cases h
  · rename_i name afterName _
    have h1 := afterName.2
    split at h
    · cases h
    · rename_i attributes empty rest' _
      have h2 := rest'.2
      grind

theorem length_scanSpecial_le
    {input rest : Text} {token : Token}
    (h : scanSpecial input = .ok (token, rest)) : rest.length ≤
    input.length := by
  unfold scanSpecial at h
  split at h
  · cases h
  · cases h
  · rename_i b tail
    split at h
    · cases hc : scanComment tail with
      | error e => simp [hc, Except.map] at h
      | ok rest' =>
        have hle := length_scanComment_le hc
        grind [Except.map]
    · cases h
  · rename_i tail
    split at h
    · cases h
    · rename_i body hb
      have h1 := length_scanSectionWord_le hb
      cases hd : scanData .literal body with
      | error e => simp [hd, Except.map] at h
      | ok pair =>
        obtain ⟨data, rest'⟩ := pair
        have hle := length_scanData_le hd
        grind [Except.map]
  · rename_i b tail _ _ _
    cases hd : scanDeclaration .plain 0 tail with
    | error e => simp [hd, Except.map] at h
    | ok rest' =>
      have hle := length_scanDeclaration_le hd
      grind [Except.map]

theorem length_scanMarkup_le
    {input rest : Text} {token : Token}
    (h : scanMarkup input = .ok (token, rest)) : rest.length ≤
    input.length := by
  unfold scanMarkup at h
  split at h
  · cases h
  · have hle := length_scanClosing_le h
    simp only [List.length_cons]
    omega
  · have hle := length_scanProcessing_le h
    simp only [List.length_cons]
    omega
  · have hle := length_scanSpecial_le h
    simp only [List.length_cons]
    omega
  · exact length_scanOpening_le h

/-- The token at the front of a non-empty text, and what is left behind it. -/
def Token.scan (b : UInt8) (rest : Text) : Except Failure (Token × Text) :=
  if b = 0x3C then scanMarkup rest
  else (scanData .content (b :: rest)).map fun (data, rest') =>
    (.text data, rest')

theorem length_scanData_content_le
    {b : UInt8} {input data rest : Text} (hb : b ≠ 0x3C)
    (h : scanData .content (b :: input) = .ok (data, rest)) : rest.length ≤
    input.length := by
  have hstart : ({} : DataState).endsSection b = false := rfl
  unfold scanData at h
  split at h
  · cases h
  · rename_i reversed rest' heq
    have hle : rest'.length ≤ input.length := by
      rw [scanDataFrom, if_neg (by simp [hstart]), if_neg hb] at heq
      split at heq
      · split at heq
        · cases heq
        · exact length_scanDataFrom_le heq
      · exact length_scanDataFrom_le heq
    grind

theorem Token.length_scan_le
    {b : UInt8} {input rest : Text} {token : Token}
    (h : Token.scan b input = .ok (token, rest)) : rest.length ≤
    input.length := by
  unfold Token.scan at h
  split at h
  · exact length_scanMarkup_le h
  · rename_i hb
    cases hd : scanData .content (b :: input) with
    | error e => simp [hd, Except.map] at h
    | ok pair =>
      obtain ⟨data, rest'⟩ := pair
      have hle := length_scanData_content_le hb hd
      grind [Except.map]

end Markup

end ProtocolCorpus
