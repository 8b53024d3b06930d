import ProtocolCorpus.Text.Base64
import ProtocolCorpus.Yaml.Scalar

/-!
# YAML nodes

A node is a scalar with or without quotes and tag, a sequence or a mapping. What
cannot be understood is kept as a scalar that reads as nothing, so it matters
only if it is asked for.
-/

namespace ProtocolCorpus

namespace Yaml

inductive Node
  | scalar (tag : Option Text) (plain : Bool) (text : Text)
  | sequence (items : List Node)
  | mapping (members : List (Node × Node))
  deriving Inhabited

def Node.empty : Node :=
  .scalar none true []

def unreadable : Datum :=
  .scalar {}

def meaningTags : List Text :=
  ["!!str", "!!bool", "!!int", "!!float", "!!null", "!!timestamp", "!!binary"]

/-- A scalar that is a text and nothing else; the old words for truth values are
still understood. -/
def textDatum (text : Text) : Datum :=
  .scalar (Meaning.text.views text)

def plainDatum (text : Text) : Datum :=
  match meaning text with
  | .null => .null
  | m => .scalar (m.views text)

/-- A scalar with a tag that says what it means, which has to fit what it looks
like. -/
def taggedDatum (tag text : Text) : Datum :=
  if tag == "!!str" then textDatum text
  else if tag == "!!binary" then .scalar { text? := Base64.decode? text }
  else
    let fits := match meaning text with
      | .null => tag == "!!null"
      | .bool _ => tag == "!!bool"
      | .int _ => tag == "!!int" || tag == "!!float"
      | .float _ => tag == "!!float"
      | .infinite _ => tag == "!!float"
      | .notANumber => tag == "!!float"
      | .timestamp => tag == "!!timestamp"
      | .text => false
    if fits then plainDatum text else unreadable

def scalarDatum (tag : Option Text) (plain : Bool) (text : Text) : Datum :=
  match tag with
  | none => if plain then plainDatum text else textDatum text
  | some tag =>
    if meaningTags.contains tag then taggedDatum tag text else textDatum text

/-- A key as it is compared with others: its text, or nothing for a collection.
-/
def Node.keyText : Node → Text
  | .scalar _ _ t => t
  | _ => []

def Node.kind : Node → Nat
  | .scalar .. => 0
  | .sequence _ => 1
  | .mapping _ => 2

def Node.sameKey (a b : Node) : Bool :=
  a.kind == b.kind && a.keyText == b.keyText

def distinctKeys : List (Node × Node) → Bool
  | [] => true
  | (k, _) :: ms => !ms.any (fun m => k.sameKey m.1) && distinctKeys ms

def Node.isMerge : Node → Bool
  | .scalar tag plain t =>
  plain && t == "<<" && (tag.isNone || tag == some "!!merge")
  | _ => false

/-- The members of a record, with those that have no key left out; nothing if a
key is no scalar. -/
def recordMembers : List (Node × Datum) → Option (List (Text × Datum))
  | [] => some []
  | (.scalar tag plain t, d) :: ms =>
    match scalarDatum tag plain t with
    | .null => recordMembers ms
    | .scalar { text? := some k, .. } => (recordMembers ms).map ((k, d) :: ·)
    | _ => none
  | _ :: _ => none

def mergedMembers? : Datum → Option (List (Text × Datum))
  | .record ms => some ms
  | _ => none

/-- The members of all that is merged, the first of a list last, so that it
wins. -/
def mergeSource? : Datum → Option (List (Text × Datum))
  | .list ds => (ds.reverse.mapM mergedMembers?).map List.flatten
  | d => mergedMembers? d

/-- A record from its own members and those it merges, which give way to its
own. -/
def mergedRecord (own : List (Node × Datum)) (merged : Option Datum) : Datum :=
  match recordMembers own, merged with
  | some ms, none => .record ms
  | some ms, some d =>
    match mergeSource? d with
    | some others => .record (others ++ ms)
    | none => unreadable
  | none, _ => unreadable

mutual

def Node.datum : Node → Datum
  | .scalar tag plain t => scalarDatum tag plain t
  | .sequence items => .list (datumItems items)
  | .mapping ms =>
    if distinctKeys ms then
      mergedRecord (datumMembers ms) (datumMerge ms)
    else unreadable

def datumItems : List Node → List Datum
  | [] => []
  | n :: ns => n.datum :: datumItems ns

def datumMembers : List (Node × Node) → List (Node × Datum)
  | [] => []
  | (k, v) :: ms =>
  if k.isMerge then datumMembers ms else (k, v.datum) :: datumMembers ms

def datumMerge : List (Node × Node) → Option Datum
  | [] => none
  | (k, v) :: ms => if k.isMerge then some v.datum else datumMerge ms

end

end Yaml

end ProtocolCorpus
