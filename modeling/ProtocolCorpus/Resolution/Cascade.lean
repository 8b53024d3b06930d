import ProtocolCorpus.Registry.Basic

/-!
# Narrowing

When several documents declare the interface a reference names, a fixed row of
questions is asked. Each question keeps the declarations it holds for, unless it
holds for none, and asking stops when one is left.
-/

namespace ProtocolCorpus

/-- A question that tells declarations apart. -/
inductive NarrowingStep
  | imports
  | protocol
  /-- Does the module have the name of the interface without its version? -/
  | module
  /-- Is the protocol neither staging nor unstable? -/
  | stable
  | always
  deriving DecidableEq, Repr, Inhabited

namespace NarrowingStep

def name : NarrowingStep → Text
  | .imports => "imports"
  | .protocol => "protocol"
  | .module => "module"
  | .stable => "stable"
  | .always => "unknown"

def ofNumber : Nat → NarrowingStep
  | 1 => .imports
  | 2 => .protocol
  | 3 => .module
  | 4 => .stable
  | _ => .always

/-- The questions in the order they are asked. -/
def cascade : List NarrowingStep :=
  [.imports, .protocol, .module, .stable]

end NarrowingStep

/-- What is looked for: the name of an interface, and the declared imports of
the document that refers to it. -/
structure Query where
  name : Text
  imports : List Text := []
  deriving Repr, Inhabited

/-- One of the segments of a protocol name says that the protocol is not stable.
-/
def isVariant (protocol : Text) : Bool :=
  ((Text.splitOn 0x5F protocol).flatMap (Text.splitOn 0x2D)).any fun s =>
    s == "staging" || s == "unstable"

def NarrowingStep.keeps (q : Query) (o : Owner) : NarrowingStep → Bool
  | .imports => q.imports.contains o.protocol || q.imports.contains o.module
  | .protocol => o.protocol == q.name || o.protocol == shortName q.name
  | .module =>
    o.module == Naming.stripVersion q.name ||
      o.module == Naming.stripVersion (shortName q.name)
  | .stable => !isVariant o.protocol
  | .always => true

/-- The declarations left after one question. -/
def narrowBy (q : Query) (owners : List Owner) (step : NarrowingStep) :
    List Owner :=
  let kept := owners.filter fun o => step.keeps q o
  if kept.isEmpty then owners else kept

/-- The declarations left after all questions, which are asked while more than
one is left. -/
def narrow (q : Query) : List Owner → List NarrowingStep → List Owner
  | owners, [] => owners
  | owners, step :: steps =>
    if owners.length ≤ 1 then owners
    else narrow q (narrowBy q owners step) steps

end ProtocolCorpus
