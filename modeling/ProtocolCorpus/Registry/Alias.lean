import Std.Data.TreeMap
import ProtocolCorpus.Naming
import ProtocolCorpus.Path
import ProtocolCorpus.Protocol.Basic

/-!
# Aliases

A document refers to another by an alias. Aliases are assigned in turn: an alias
is free if no document has it yet, or if it belongs to the same import path, and
the alias of the root document is never given to another.
-/

namespace ProtocolCorpus

/-- How the root protocol is recognised and referred to. -/
structure NamingRules where
  rootStart : Text := "wl_"
  rootAlias : Text := "wl"
  rootProtocol : Text := "wayland"
  deriving DecidableEq, Repr, Inhabited

abbrev AliasTable := Std.TreeMap Text Text

namespace Alias

def protocolName (d : Document) : Text :=
  (d.protocol.map Protocol.name).getD []

/-- The texts an alias is made from, the preferred first. -/
def candidates (d : Document) : List Text :=
  let protocol := protocolName d
  let sanitized := Naming.identifier protocol
  [Naming.commonSegments (d.interfaces.map Interface.name),
    Naming.stripVersion protocol,
    Path.base d.importPath,
    protocol,
    sanitized.takeWhile (· != Naming.underscore)]

/-- The alias can be given to a document with the import path. -/
def usable (rules : NamingRules) (bound : AliasTable) (importPath name : Text) :
    Bool :=
  if name.isEmpty || name == rules.rootAlias then false
  else
    match bound[name]? with
    | some owner => owner == importPath
    | none => true

/-- The last number that is tried behind an alias. -/
def maxSuffix : Nat := 65536

/-- The first usable alias `base_n`, `base_(n+1)`, … among the next `count`. -/
def numbered? (ok : Text → Bool) (base : Text)
    (n : Nat) : (count : Nat) → Option Text
  | 0 => none
  | count + 1 =>
    let name := base ++ "_" ++ Text.ofNat n
    if ok name then some name else numbered? ok base (n + 1) count

/-- What numbers are put behind when all candidates are taken. -/
def fallback (d : Document) : Text :=
  let base := Naming.identifier (protocolName d)
  if base.isEmpty then "proto" else base

/-- The alias of a document: the first usable candidate, or the first usable
number. -/
def assign? (rules : NamingRules) (bound : AliasTable)
    (d : Document) : Option Text :=
  let ok := usable rules bound d.importPath
  match ((candidates d).map Naming.identifier).find? ok with
  | some name => some name
  | none => numbered? ok (fallback d) 2 (maxSuffix - 1)

end Alias

end ProtocolCorpus
