import ProtocolCorpus.Text.Scalar

/-!
# TOML tables

A document builds one table by headers and keys. A table that arises only on the
way to another may be given a header of its own later, once; a list of values
may be replaced; nothing else is defined twice.
-/

namespace ProtocolCorpus

namespace Toml

inductive Value
  | text (t : Text)
  | int (n : Int)
  | bool (b : Bool)
  /-- A floating-point number or a point in time. -/
  | other
  | list (items : List Value)
  | table (members : List (Text × Value))
  /-- Tables under one header, the last one being filled. -/
  | tables (rows : List (List (Text × Value)))
  deriving Inhabited

abbrev Members := List (Text × Value)

abbrev Key := List Text

def isBareByte (b : UInt8) : Bool :=
  Text.isLetter b || Text.isDigit b || b = 0x5F || b = 0x2D

def escapeName (b : UInt8) : Text :=
  if b = 0x22 then "\\\""
  else if b = 0x5C then "\\\\"
  else if b = 0x08 then "\\b"
  else if b = 0x09 then "\\t"
  else if b = 0x0A then "\\n"
  else if b = 0x0C then "\\f"
  else if b = 0x0D then "\\r"
  else if b < 0x20 || b = 0x7F then "\\u" ++ Text.hexPadded 4 b.toNat
  else [b]

def showName (t : Text) : Text :=
  if !t.isEmpty && t.all isBareByte then t
  else "\"" ++ t.flatMap escapeName ++ "\""

def showKey (k : Key) : Text :=
  Text.join "." (k.map showName)

def putMember (ms : Members) (name : Text) (v : Value) : Members :=
  if (ms.lookup name).isSome then ms.map fun m => if m.1 == name then (name, v)
  else m
  else ms ++ [(name, v)]

/-- Change the table that a key leads to; of several tables the last one. -/
def modify (f : Members → Option Members) : Key → Members → Option Members
  | [], ms => f ms
  | name :: key, ms =>
    match ms.lookup name with
    | some (.table inner) => do
      let inner ← modify f key inner
      return putMember ms name (.table inner)
    | some (.tables rows) => do
      let last ← rows.getLast?
      let last ← modify f key last
      return putMember ms name (.tables (rows.dropLast ++ [last]))
    | _ => none

def follow? : Key → Members → Option Members
  | [], ms => some ms
  | name :: key, ms =>
    match ms.lookup name with
    | some (.table inner) => follow? key inner
    | some (.tables rows) => rows.getLast?.bind (follow? key)
    | _ => none

structure Builder where
  root : Members := []
  /-- The tables that have no header of their own yet. -/
  implicit : List Key := []
  lists : List Key := []
  context : Key := []
  /-- All keys that have been written, in order. -/
  written : List Key := []

namespace Builder

/-- The table of a key may still get a header. -/
def markImplicit (b : Builder) (k : Key) : Builder :=
  { b with implicit := k :: b.implicit }

def markExplicit (b : Builder) (k : Key) : Builder :=
  { b with implicit := b.implicit.filter (· != k) }

def markList (b : Builder) (k : Key) (isList : Bool) : Builder :=
  { b with lists := if isList then k :: b.lists else b.lists.filter (· != k) }

def write (b : Builder) (k : Key) : Builder :=
  { b with written := b.written ++ [k] }

def define (b : Builder) (context : Key) (name : Text)
    (v : Value) : Option Builder := do
  let table ← follow? context b.root
  let key := context ++ [name]
  let put := do
    let root ← modify (fun ms => some (putMember ms name v)) context b.root
    return { b with root }
  if (table.lookup name).isNone then put
  else if b.lists.contains key then return (← put).markExplicit key
  else if b.implicit.contains key then return b.markExplicit key
  else none

def makeWay (b : Builder) (sofar : Key) : Key → Option Builder
  | [] => some b
  | [_] => some b
  | name :: rest => do
    let table ← follow? sofar b.root
    let here := sofar ++ [name]
    let b ← if (table.lookup name).isNone then do
        let root ← modify (fun ms => some (putMember ms name (.table [])))
          sofar b.root
        some ({ b with root }.markImplicit here)
      else some b
    if (follow? here b.root).isSome then makeWay b here rest else none

/-- One more table in a list of tables. -/
def addRow (name : Text) (ms : Members) : Option Members :=
  match ms.lookup name with
  | none => some (putMember ms name (.tables [[]]))
  | some (.tables rows) => some (putMember ms name (.tables (rows ++ [[]])))
  | some _ => none

def enter (b : Builder) (key : Key) (row : Bool) : Option Builder := do
  let b ← b.makeWay [] key
  let context := key.dropLast
  let name ← key.getLast?
  let b ← if row then do
      let root ← modify (addRow name) context b.root
      some { b with root }
    else b.define context name (.table [])
  return { b with context := key }

/-- Enter the tables that lead to the last name of a dotted key. -/
def enterParts (b : Builder) : Key → Option Builder
  | [] => some b
  | [_] => some b
  | name :: rest => do
    let key := b.context ++ [name]
    let b ← (b.markImplicit key).enter key false
    enterParts b rest

end Builder

end Toml

end ProtocolCorpus
