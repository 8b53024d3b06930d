import Std.Data.HashSet
import ProtocolCorpus.Diagnostic.Basic

/-!
# Bags of diagnostics

A bag collects diagnostics up to a limit and drops the rest. The limit is at
most 65535; joining two bags raises it as far as needed to keep all the
diagnostics of both.
-/

namespace ProtocolCorpus

/-- Diagnostics in the order they were added, and how many there may be. -/
structure Bag where
  items : Array Diagnostic := #[]
  limit : Nat
  deriving Repr, Inhabited

namespace Bag

def maxLimit : Nat := 65535

/-- An empty bag; a limit out of range means the largest one. -/
def new (limit : Int) : Bag :=
  { limit := if limit ≤ 0 ∨ (maxLimit : Int) < limit then maxLimit
      else limit.toNat }

def size (b : Bag) : Nat :=
  b.items.size

def hasRoom (b : Bag) : Bool :=
  b.items.size < b.limit

def offer (b : Bag) (d : Diagnostic) : Bool × Bag :=
  if b.hasRoom then (true, { b with items := b.items.push d }) else (false, b)

def add (b : Bag) (d : Diagnostic) : Bag :=
  (b.offer d).2

def addAll (b : Bag) (ds : List Diagnostic) : Bag :=
  ds.foldl add b

def countFrom (b : Bag) (s : Severity) : Nat :=
  b.items.countP fun d => s.level ≤ d.severity.level

def errorCount (b : Bag) : Nat :=
  b.countFrom .error

def hasErrors (b : Bag) : Bool :=
  0 < b.countFrom .error

def hasWarnings (b : Bag) : Bool :=
  0 < b.countFrom .warning

/-- The bag with the diagnostics of another behind its own; the limit grows if
it has to. -/
def merge (b other : Bag) : Bag :=
  let total := min (b.items.size + other.items.size) maxLimit
  addAll { b with limit := max b.limit total } other.items.toList

def filter (b : Bag) (keep : Diagnostic → Bool) : Bag :=
  { b with items := b.items.filter keep }

/-- `x` need not stand behind `y`: by file, start, end, severity from the most
serious, and code. -/
def ordered (x y : Diagnostic) : Bool :=
  let c := (compare x.span.file y.span.file).then <|
    (compare x.span.start y.span.start).then <|
    (compare x.span.stop y.span.stop).then <|
    (compare y.severity.level x.severity.level).then <|
    compare x.code.number y.code.number
  c != .gt

/-- The diagnostics in the order of their places; equals keep the order they
were added in. -/
def sort (b : Bag) : Bag :=
  { b with items := (b.items.toList.mergeSort ordered).toArray }

end Bag

structure Seen where
  keys : Std.HashSet Diagnostic.Key := {}

namespace Seen

/-- Whether a finding is new, and the memory with it. -/
def visit (s : Seen) (d : Diagnostic) : Bool × Seen :=
  (!s.keys.contains d.key, ⟨s.keys.insert d.key⟩)

/-- The findings not seen before, in order, each once. -/
def fresh (s : Seen) : List Diagnostic → List Diagnostic
  | [] => []
  | d :: ds =>
  if s.keys.contains d.key then fresh s ds
  else d :: fresh ⟨s.keys.insert d.key⟩ ds

end Seen

namespace Bag

/-- The bag with the first report of every finding only. -/
def dedup (b : Bag) : Bag :=
  { b with items := ((({} : Seen).fresh b.items.toList)).toArray }

end Bag

/-- A bag behind a filter that lets every finding pass once, whether there was
room for it or not. -/
structure FilteredBag where
  seen : Seen := {}
  bag : Bag

namespace FilteredBag

/-- Hand a finding to the bag unless it has been handed over before. -/
def report (f : FilteredBag) (d : Diagnostic) : FilteredBag :=
  let (isNew, seen) := f.seen.visit d
  if isNew then ⟨seen, f.bag.add d⟩ else f

end FilteredBag

end ProtocolCorpus
