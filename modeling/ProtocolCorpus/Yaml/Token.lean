import ProtocolCorpus.Yaml.Cursor

/-!
# YAML scalars as they are written

Plain scalars, quoted scalars, indented blocks of lines, names and tags, each
read from a cursor. Line ends inside a plain or quoted scalar are folded.
-/

namespace ProtocolCorpus

namespace Yaml

open Cursor

/-- A character that ends a plain scalar inside brackets. -/
def isFlowMark (c : Char) : Bool :=
  c = ',' || c = '[' || c = ']' || c = '\x7b' || c = '\x7d'

/-- The characters of a plain scalar up to the next blank or mark. -/
def plainWord (flow : Bool) : List Char → List Char
  | [] => []
  | c :: t =>
    if isBlank c || isBreak c then []
    else if c = ':' && endsWord t then []
    else if flow && (isFlowMark c || (c = '?' && endsWord t)) then []
    else c :: plainWord flow t

/-- A plain scalar from a word on. `separator` stands before the next word, if
there is one. With `lines` it may go on in lines that are indented enough. -/
def plainFrom (flow lines : Bool) (indent : Nat) : (fuel : Nat) →
    (separator : List Char) → Cursor →
    Option (List Char × Cursor)
  | 0, _, _ => none
  | fuel + 1, separator, s =>
    let word := plainWord flow s.rest
    if s.atDocumentMark || s.peek? = some '#' || word.isEmpty then some ([], s)
    else
      let s := s.advance word.length
      let blanks := s.rest.takeWhile isBlank
      let behind := s.skip blanks.length
      let word := separator ++ word
      match behind.takeBreak? with
      | none =>
        if blanks.isEmpty then some (word, s)
        else (plainFrom flow lines indent fuel blanks behind).map fun (cs, s) =>
          (word ++ cs, s)
      | some _ =>
        if !lines then some (word, s)
        else do
          let (breaks, next) ← lineGap? indent true
            (behind.rest.length + 1) behind
          if !flow && next.column < indent then some (word, next)
          else
            let (cs, s) ← plainFrom flow lines indent fuel
              (foldBreaks breaks) next
            some (word ++ cs, s)

def plain? (flow lines : Bool) (indent : Nat)
    (s : Cursor) : Option (List Char × Cursor) :=
  match plainFrom flow lines indent (s.rest.length + 1) [] s with
  | some ([], _) => none
  | r => r

/-- A plain scalar can start with these characters. -/
def startsPlain (flow : Bool) : List Char → Bool
  | [] => false
  | c :: t =>
    if isBlank c || isBreak c then false
    else if c = '-' then !(t.head?.map isBlank).getD false
    else if c = '?' || c = ':' then !flow && !endsWord t
    else !([',', '[', ']', '\x7b', '\x7d', '#', '&', '*', '!', '|', '>', '\x27',
      '\x22', '%', '@', '\x60'].contains c)

/-- What a row of blanks and line ends within quotes stands for: lines are
folded. -/
def quotedWhite? (s : Cursor) : Option (List Char × Cursor) :=
  let blanks := s.rest.takeWhile isBlank
  let behind := s.skip blanks.length
  match behind.takeBreak? with
  | none => some (blanks, behind)
  | some _ => do
    let (breaks, next) ← lineGap? 0 false (behind.rest.length + 1) behind
    some (foldBreaks breaks, next)

def singleRest : (fuel : Nat) → Cursor → Option (List Char × Cursor)
  | 0, _ => none
  | fuel + 1, s =>
    if s.atDocumentMark then none
    else
      match s.rest with
      | [] => none
      | '\x27' :: '\x27' :: _ =>
        (singleRest fuel (s.advance 2)).map fun (cs, s) => ('\x27' :: cs, s)
      | '\x27' :: _ => some ([], s.advance 1)
      | c :: _ =>
        if isBlank c || isBreak c then do
          let (white, next) ← quotedWhite? s
          let (cs, s) ← singleRest fuel next
          some (white ++ cs, s)
        else (singleRest fuel (s.advance 1)).map fun (cs, s) => (c :: cs, s)

def escaped? (c : Char) : Option Char :=
  match c with
  | '0' => some '\x00'
  | 'a' => some '\x07'
  | 'b' => some '\x08'
  | 't' => some '\t'
  | '\t' => some '\t'
  | 'n' => some '\n'
  | 'v' => some '\x0b'
  | 'f' => some '\x0c'
  | 'r' => some '\r'
  | 'e' => some '\x1b'
  | ' ' => some ' '
  | '\x22' => some '\x22'
  | '/' => some '/'
  | '\x27' => some '\x27'
  | '\\' => some '\\'
  | 'N' => some '\u0085'
  | '_' => some '\u00a0'
  | 'L' => some '\u2028'
  | 'P' => some '\u2029'
  | _ => none

/-- How many digits follow the letter of an escape. -/
def escapeDigits (c : Char) : Nat :=
  if c = 'x' then 2 else if c = 'u' then 4 else if c = 'U' then 8 else 0

/-- The character of a row of hexadecimal digits. -/
def hexChar? (cs : List Char) : Option Char := do
  let n ← Text.natOfDigits? 16 (textOf cs)
  if n < 0xD800 || (0xE000 ≤ n && n ≤ 0x10FFFF) then some (Char.ofNat n)
  else none

def doubleRest : (fuel : Nat) → Cursor → Option (List Char × Cursor)
  | 0, _ => none
  | fuel + 1, s =>
    if s.atDocumentMark then none
    else
      match s.rest with
      | [] => none
      | '\x22' :: _ => some ([], s.advance 1)
      | '\\' :: t =>
        match (s.advance 1).takeBreak? with
        | some (_, next) => do
          let (breaks, next) ← lineGap? 0 false (next.rest.length + 1) next
          let (cs, s) ← doubleRest fuel next
          some (breaks ++ cs, s)
        | none =>
          match t with
          | [] => none
          | e :: digits =>
            let n := escapeDigits e
            if n = 0 then do
              let c ← escaped? e
              let (cs, s) ← doubleRest fuel (s.advance 2)
              some (c :: cs, s)
            else if digits.length < n then none
            else do
              let c ← hexChar? (digits.take n)
              let (cs, s) ← doubleRest fuel (s.advance (2 + n))
              some (c :: cs, s)
      | c :: _ =>
        if isBlank c || isBreak c then do
          let (white, next) ← quotedWhite? s
          let (cs, s) ← doubleRest fuel next
          some (white ++ cs, s)
        else (doubleRest fuel (s.advance 1)).map fun (cs, s) => (c :: cs, s)

def quoted? (s : Cursor) : Option (Node × Cursor) :=
  match s.rest with
  | '\x27' :: _ =>
    (singleRest (s.rest.length + 1) (s.advance 1)).map fun (cs, s) =>
      (.scalar none false (textOf cs), s)
  | '\x22' :: _ =>
    (doubleRest (s.rest.length + 1) (s.advance 1)).map fun (cs, s) =>
      (.scalar none false (textOf cs), s)
  | _ => none

/-- What becomes of the line ends at the end of a block of lines. -/
inductive Chomping
  | clip
  | strip
  | keep
  deriving DecidableEq, Repr

/-- The marks behind the bar: chomping and indentation in either order, and the
cursor behind them. -/
def blockMarks? (s : Cursor) : Option (Chomping × Option Nat × Cursor) :=
  let chomp? (c : Char) : Option Chomping := if c = '+' then some .keep
    else if c = '-' then some .strip else none
  let indent? (c : Char) : Option Nat := if '1' ≤ c &&
    c ≤ '9' then some (c.toNat - 0x30) else none
  match s.rest with
  | a :: b :: _ =>
    match chomp? a, indent? a with
    | some k, _ =>
      if b = '0' then none
      else
        match indent? b with
        | some n => some (k, some n, s.advance 2)
        | none => some (k, none, s.advance 1)
    | none, some n =>
      match chomp? b with
      | some k => some (k, some n, s.advance 2)
      | none => some (.clip, some n, s.advance 1)
    | none, none => if a = '0' then none else some (.clip, none, s)
  | [a] =>
    match chomp? a, indent? a with
    | some k, _ => some (k, none, s.advance 1)
    | none, some n => some (.clip, some n, s.advance 1)
    | none, none => if a = '0' then none else some (.clip, none, s)
  | [] => some (.clip, none, s)

/-- Blank lines at the cursor and the indentation of the next line up to
`indent`, if that is known; the widest indentation is found on the way. -/
def blockGap? (indent : Option Nat) : (fuel widest : Nat) → Cursor →
    Option (List Char × Nat × Cursor)
  | 0, _, _ => none
  | fuel + 1, widest, s =>
    let inside : Bool := match indent with
      | some n => s.column < n
      | none => true
    match s.rest with
    | ' ' :: _ =>
      if inside then blockGap? indent fuel widest (s.skip 1)
      else some ([], max widest s.column, s)
    | '\t' :: _ => if inside then none else some ([], max widest s.column, s)
    | _ =>
      match s.takeBreak? with
      | some (c, next) =>
        (blockGap? indent fuel (max widest s.column) next).map fun (cs, w, s) =>
          (c :: cs, w, s)
      | none => some ([], max widest s.column, s)

def lineText (s : Cursor) : List Char :=
  s.rest.takeWhile fun c => !isBreak c

/-- The lines of a block. `lead` is the line end behind the line before,
`breaks` are the blank lines since, and `wasBlank` says that the line before
started with a blank. -/
def blockLines? (folded : Bool) (chomping : Chomping)
    (indent : Nat) : (fuel : Nat) →
    (lead breaks : List Char) → (wasBlank : Bool) → Cursor →
    Option (List Char × Cursor)
  | 0, _, _, _, _ => none
  | fuel + 1, lead, breaks, wasBlank, s =>
    if s.column = indent && !s.rest.isEmpty then do
      let startsBlank := (s.rest.head?.map isBlank).getD false
      let joint :=
        if folded && !wasBlank && !startsBlank && lead.head? = some '\n' then
          if breaks.isEmpty then [' '] else []
        else lead
      let text := lineText s
      let s := s.advance text.length
      let (lead, s) := match s.takeBreak? with
        | some (c, next) => ([c], next)
        | none => ([], s)
      let (more, _, s) ← blockGap? (some indent) (s.rest.length + 1) 0 s
      let (cs, s) ← blockLines? folded chomping indent fuel lead more
        startsBlank s
      some (joint ++ breaks ++ text ++ cs, s)
    else
      let tail := match chomping with
        | .strip => []
        | .clip => lead
        | .keep => lead ++ breaks
      some (tail, s)

/-- A block of lines behind its bar. Lines are indented more than what is around
them. -/
def block? (folded : Bool) (floor : Nat)
    (s : Cursor) : Option (Node × Cursor) := do
  let (chomping, given, s) ← blockMarks? (s.advance 1)
  let s := s.skip (s.rest.takeWhile isBlank).length
  let s := if s.peek? = some '#' then s.skip (lineText s).length else s
  let s ← match s.takeBreak? with
    | some (_, next) => some next
    | none => if s.rest.isEmpty then some s else none
  let known := given.map fun n => floor - 1 + n
  let (breaks, widest, s) ← blockGap? known (s.rest.length + 1) 0 s
  let indent := known.getD (max (max widest floor) 1)
  let (cs, s) ← blockLines? folded chomping indent (s.rest.length + 1)
    [] breaks false s
  some (.scalar none false (textOf cs), { s with fresh := true })

def isNameChar (c : Char) : Bool :=
  ('0' ≤ c && c ≤ '9') || ('A' ≤ c && c ≤ 'Z') || ('a' ≤ c && c ≤ 'z') ||
    c = '_' || c = '-'

def name? (s : Cursor) : Option (Text × Cursor) :=
  let name := (s.rest.drop 1).takeWhile isNameChar
  let next := s.advance (1 + name.length)
  let ends := endsWord next.rest
    || (next.peek?.map fun c =>
      ['?', ':', ',', ']', '\x7d', '%', '@', '\x60'].contains c).getD false
  if name.isEmpty || !ends then none else some (textOf name, next)

/-- The tag of the built-in types is written with two marks. -/
def shortTag (t : Text) : Text :=
  match Text.stripFront? "tag:yaml.org,2002:" t with
  | some rest => "!!" ++ rest
  | none => t

def tag? (flow : Bool) (s : Cursor) : Option (Text × Cursor) :=
  let text := s.rest.takeWhile fun c =>
    !(isBlank c || isBreak c || (flow && isFlowMark c))
  let next := s.advance text.length
  match text with
  | '!' :: '<' :: inner =>
    if inner.getLast? = some '>' then
      some (shortTag (textOf inner.dropLast), next)
    else none
  | _ => some (textOf text, next)

/-- Name and tag before a node, in either order. -/
def properties? (flow : Bool) : (fuel : Nat) → (anchor tag : Option Text) →
    Cursor →
    Option (Option Text × Option Text × Cursor)
  | 0, anchor, tag, s => some (anchor, tag, s)
  | fuel + 1, anchor, tag, s =>
    match s.peek? with
    | some '&' => do
      if anchor.isSome then none
      else
        let (a, next) ← name? s
        properties? flow fuel (some a) tag (if flow then next.toFlowToken
          else next.toToken true)
    | some '!' => do
      if tag.isSome then none
      else
        let (t, next) ← tag? flow s
        properties? flow fuel anchor (some t) (if flow then next.toFlowToken
          else next.toToken true)
    | _ => some (anchor, tag, s)

/-- The node with a tag; the tag `!` says nothing, and collections keep none. -/
def withTag (tag : Option Text) : Node → Node
  | .scalar t plain text =>
  if tag == some "!" || tag.isNone then .scalar t plain text
  else .scalar tag plain text
  | n => n

def repeated? (s : Cursor) : Option (Node × Cursor) := do
  let (name, next) ← name? s
  let n ← s.anchors.lookup name
  some (n, next)

end Yaml

end ProtocolCorpus
