import ProtocolCorpus.Text.Basic

/-!
# Trees

What is written to a structured format: numbers, texts, lists and records with
ordered fields. Each format has its own printer of trees.
-/

namespace ProtocolCorpus

inductive Tree
  /-- A list that is not there; a format that knows no such thing writes an
  empty one. -/
  | absent
  | bool (b : Bool)
  | int (n : Int)
  | text (t : Text)
  | list (items : List Tree)
  | record (members : List (Text × Tree))
  deriving Inhabited

namespace Tree

def texts (ts : List Text) : Tree :=
  .list (ts.map .text)

/-- A record whose empty members are left out. -/
def sparse (members : List (Text × Option Tree)) : Tree :=
  .record (members.filterMap fun (k, t) => t.map fun t => (k, t))

def textOr (t : Text) : Option Tree :=
  if t.isEmpty then none else some (.text t)

def listOr (items : List Tree) : Option Tree :=
  if items.isEmpty then none else some (.list items)

end Tree

end ProtocolCorpus
