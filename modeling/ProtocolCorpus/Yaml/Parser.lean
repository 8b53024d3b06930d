import ProtocolCorpus.Yaml.Token

/-!
# Reading YAML

The first document of a text as a node. Blocks are read by their indentation: a
block belongs to the nearest one around it that is indented less.
-/

namespace ProtocolCorpus

namespace Yaml

open Cursor

mutual

def flowNode : (fuel : Nat) → Cursor → Option (Node × Cursor)
  | 0, _ => none
  | fuel + 1, s => do
    let (anchor, tag, s) ← properties? true 3 none none s
    let (n, s) ← match s.peek? with
      | some '[' =>
        (flowItems fuel (s.advance 1)).map fun (ns, s) => (Node.sequence ns, s)
      | some '\x7b' =>
        (flowMembers fuel (s.advance 1)).map fun (ms, s) => (Node.mapping ms, s)
      | some '\x27' => quoted? s
      | some '\x22' => quoted? s
      | some '*' => repeated? s
      | some c =>
        if startsPlain true s.rest then
          (plain? true true 0 s).map fun (cs, s) =>
            (Node.scalar none true (textOf cs), s)
        else if (anchor.isSome || tag.isSome) &&
          (c = ',' || c = ']' || c = '\x7d' || c = ':') then
          some (Node.empty, s)
        else none
      | none => none
    let n := withTag tag n
    some (n, s.define anchor n)

def flowValue : (fuel : Nat) → Cursor → Option (Node × Cursor)
  | 0, _ => none
  | fuel + 1, s =>
    let s := s.toFlowToken
    match s.peek? with
    | some ',' => some (.empty, s)
    | some ']' => some (.empty, s)
    | some '\x7d' => some (.empty, s)
    | _ => flowNode fuel s

/-- A key inside brackets, which may be empty. -/
def flowKey : (fuel : Nat) → Cursor → Option (Node × Cursor)
  | 0, _ => none
  | fuel + 1, s =>
    let s := if s.isMark '?' then (s.advance 1).toFlowToken else s
    if s.peek? = some ':' then some (.empty, s) else flowNode fuel s

/-- The items of a list in brackets. A pair counts as a mapping of its own. -/
def flowItems : (fuel : Nat) → Cursor → Option (List Node × Cursor)
  | 0, _ => none
  | fuel + 1, s => do
    let s := s.toFlowToken
    if s.peek? = some ']' then some ([], s.advance 1)
    else
      let (n, s) ← flowKey fuel s
      let s := s.toFlowToken
      let (n, s) ←
        if s.peek? = some ':' then
          (flowValue fuel (s.advance 1)).map fun (v, s) =>
            (Node.mapping [(n, v)], s)
        else some (n, s)
      let s := s.toFlowToken
      match s.peek? with
      | some ']' => some ([n], s.advance 1)
      | some ',' =>
        let (ns, s) ← flowItems fuel (s.advance 1)
        some (n :: ns, s)
      | _ => none

def flowMembers : (fuel : Nat) → Cursor → Option (List (Node × Node) × Cursor)
  | 0, _ => none
  | fuel + 1, s => do
    let s := s.toFlowToken
    if s.peek? = some '\x7d' then some ([], s.advance 1)
    else
      let (k, s) ← flowKey fuel s
      let s := s.toFlowToken
      let (v, s) ← if s.peek? = some ':' then flowValue fuel (s.advance 1)
        else some (Node.empty, s)
      let s := s.toFlowToken
      match s.peek? with
      | some '\x7d' => some ([(k, v)], s.advance 1)
      | some ',' =>
        let (ms, s) ← flowMembers fuel (s.advance 1)
        some ((k, v) :: ms, s)
      | _ => none

end

/-- A key on one line with its colon, and the cursor behind the colon. -/
def key? (fuel : Nat) (s : Cursor) : Option (Node × Cursor) := do
  let (anchor, tag, start) ← properties? false 3 none none s
  let (n, next) ← match start.peek? with
    | some '[' => flowNode fuel start
    | some '\x7b' => flowNode fuel start
    | some '\x27' => quoted? start
    | some '\x22' => quoted? start
    | some '*' => repeated? start
    | _ =>
      if startsPlain false start.rest then
        (plain? false false 0 start).map fun (cs, s) =>
          (Node.scalar none true (textOf cs), s)
      else none
  let next := next.skip (next.rest.takeWhile isBlank).length
  if next.line = s.line && next.isMark ':' then
    let n := withTag tag n
    some (n, (next.advance 1).define anchor n)
  else none

mutual

/-- A node in a block. It stands at column `floor` or behind; `keys` says that a
key can start on this line, and `value` that the node is the value of a key,
where a list need not be indented. -/
def blockNode : (fuel floor : Nat) → (keys value : Bool) → Cursor →
    Option (Node × Cursor)
  | 0, _, _, _, _ => none
  | fuel + 1, floor, keys, value, s =>
    let s := s.toToken (!keys)
    let keys := keys || s.fresh
    if s.atEnd then some (.empty, s)
    else if s.fresh && s.column < floor then
      if value && s.column + 1 = floor && s.isMark '-' then
        (blockItems fuel s.column true s).map fun (ns, s) => (.sequence ns, s)
      else some (.empty, s)
    else if (key? fuel s).isSome || s.isMark '?' || s.isMark ':' then
      if keys then (blockMembers fuel s.column s).map fun (ms, s) =>
        (.mapping ms, s) else none
    else if s.isMark '-' then
      if keys then (blockItems fuel s.column false s).map fun (ns, s) =>
        (.sequence ns, s) else none
    else
      match s.peek? with
      | some '&' => taggedNode fuel floor value s
      | some '!' => taggedNode fuel floor value s
      | some '|' => block? false floor s
      | some '>' => block? true floor s
      | some '[' => flowNode fuel s
      | some '\x7b' => flowNode fuel s
      | some '\x27' => quoted? s
      | some '\x22' => quoted? s
      | some '*' => repeated? s
      | _ =>
        if startsPlain false s.rest then
          (plain? false true floor s).map fun (cs, s) =>
            (.scalar none true (textOf cs), s)
        else none

def taggedNode : (fuel floor : Nat) → (value : Bool) → Cursor →
    Option (Node × Cursor)
  | 0, _, _, _ => none
  | fuel + 1, floor, value, s => do
    let (anchor, tag, s) ← properties? false 3 none none s
    let (n, s) ← blockNode fuel floor false value s
    let n := withTag tag n
    some (n, s.define anchor n)

/-- The items of a list whose dashes stand in a column. A list that is not
indented ends where something else stands there. -/
def blockItems : (fuel column : Nat) → (flush : Bool) → Cursor →
    Option (List Node × Cursor)
  | 0, _, _, _ => none
  | fuel + 1, column, flush, s => do
    let (n, s) ← blockNode fuel (column + 1) true false (s.advance 1)
    let s := s.toToken true
    if s.atEnd || (s.fresh && s.column < column) then some ([n], s)
    else if !s.fresh || column < s.column then none
    else if s.isMark '-' then
      let (ns, s) ← blockItems fuel column flush s
      some (n :: ns, s)
    else if flush then some ([n], s)
    else none

def blockMember : (fuel column : Nat) → Cursor → Option ((Node × Node) × Cursor)
  | 0, _, _ => none
  | fuel + 1, column, s =>
    if s.isMark '?' then do
      let (k, s) ← blockNode fuel (column + 1) true true (s.advance 1)
      let s := s.toToken true
      if s.fresh && s.column = column && s.isMark ':' then
        let (v, s) ← blockNode fuel (column + 1) true true (s.advance 1)
        some ((k, v), s)
      else some ((k, .empty), s)
    else if s.isMark ':' then do
      let (v, s) ← blockNode fuel (column + 1) true true (s.advance 1)
      some ((.empty, v), s)
    else do
      let (k, s) ← key? fuel s
      let (v, s) ← blockNode fuel (column + 1) false true s
      some ((k, v), s)

def blockMembers : (fuel column : Nat) → Cursor →
    Option (List (Node × Node) × Cursor)
  | 0, _, _ => none
  | fuel + 1, column, s => do
    let (m, s) ← blockMember fuel column s
    let s := s.toToken true
    if s.atEnd || (s.fresh && s.column < column) then some ([m], s)
    else if !s.fresh || column < s.column || s.isMark '-' then none
    else
      let (ms, s) ← blockMembers fuel column s
      some (m :: ms, s)

end

def isAllowed (c : Char) : Bool :=
  let n := c.toNat
  n = 0x09 || n = 0x0A || n = 0x0D || (0x20 ≤ n && n ≤ 0x7E) || n = 0x85 ||
    (0xA0 ≤ n && n ≤ 0xD7FF)
    || (0xE000 ≤ n && n ≤ 0xFFFD && n ≠ 0xFEFF) || 0x10000 ≤ n

def chars? (t : Text) : Option (List Char) :=
  (Text.scalars t).mapM fun s =>
    match s with
    | .char c => some c
    | .stray _ => none

/-- Nothing but a comment follows on the line; the cursor behind it. -/
def lineEnd? (s : Cursor) : Option Cursor :=
  let s := s.skip (s.rest.takeWhile isBlank).length
  let s := if s.peek? = some '#' then s.skip (lineText s).length else s
  if s.rest.isEmpty || s.takeBreak?.isSome then some s else none

/-- A part of a version: one or two digits. -/
def versionPart? (s : Cursor) : Option (Text × Cursor) :=
  let digits := s.rest.takeWhile Char.isDigit
  if digits.isEmpty || 2 < digits.length then none
  else some (textOf digits, s.advance digits.length)

/-- The directive that names the version, which has to be 1.1, from behind its
name. -/
def versionDirective? (s : Cursor) : Option Cursor := do
  let (major, s) ← versionPart? (s.skip (s.rest.takeWhile isBlank).length)
  if s.peek? != some '.' then none
  else
    let (minor, s) ← versionPart? (s.advance 1)
    if Text.natOfDigits? 10 major = some 1 ∧
        Text.natOfDigits? 10 minor = some 1 then lineEnd? s
    else none

/-- The directive that gives tags a short form, from behind its name. -/
def tagDirective? (s : Cursor) : Option Cursor :=
  let word (s : Cursor) : List Char := s.rest.takeWhile fun c =>
    !(isBlank c || isBreak c)
  let s := s.skip (s.rest.takeWhile isBlank).length
  let handle := word s
  let next := s.advance handle.length
  let next := next.skip (next.rest.takeWhile isBlank).length
  let closed := handle = ['!'] ||
    (2 ≤ handle.length && handle.getLast? = some '!'
    && (handle.drop 1).dropLast.all isNameChar)
  if handle.head? = some '!' && closed && !(word next).isEmpty then
    lineEnd? (next.advance (word next).length)
  else none

/-- The cursor behind directives, and whether there were any. The version is
named once at most. -/
def directives? : (fuel : Nat) → (found versioned : Bool) → Cursor →
    Option (Cursor × Bool)
  | 0, _, _, _ => none
  | fuel + 1, found, versioned, s => do
    let s := s.toToken false
    if s.column = 0 && s.peek? = some '%' then
      let name := (s.rest.drop 1).takeWhile isNameChar
      let next := s.advance (1 + name.length)
      if !endsWord next.rest then none
      else if textOf name == "YAML" then
        if versioned then none
        else directives? fuel true true (← versionDirective? next)
      else if textOf name == "TAG" then
        directives? fuel true versioned (← tagDirective? next)
      else none
    else some (s, found)

def dropMark : Text → Text
  | 0xEF :: 0xBB :: 0xBF :: t => t
  | t => t

/-- The first document of a text; nothing if there is none or it is malformed.
-/
def parse? (t : Text) : Option Node := do
  let cs ← chars? (dropMark t)
  if !cs.all isAllowed then none
  else
    let fuel := 8 * cs.length + 32
    let (s, directed) ← directives? fuel false false { rest := cs }
    if s.rest.isEmpty then none
    else if s.atDocumentMark then
      if s.peek? = some '-' then
        (blockNode fuel 0 false false (s.advance 3)).map Prod.fst
      else none
    else if directed then none
    else (blockNode fuel 0 true false s).map Prod.fst

/-- Keys name fields exactly, and a null is no item. -/
def conventions : Conventions where
  names field key := field == key
  nullClears := false
  nullVanishes := true
  positional := false

end Yaml

end ProtocolCorpus
