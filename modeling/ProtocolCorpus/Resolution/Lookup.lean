import ProtocolCorpus.Diagnostic.Code
import ProtocolCorpus.Resolution.Cascade
import ProtocolCorpus.Text.Quoted

/-!
# Looking references up

A reference to an interface means an interface of its own document, else one of
the root protocol, else the one declaration that narrowing leaves. A reference
to an enumeration is the name of an enumeration of the interface around it, or
such a reference followed by a dot and the name.
-/

namespace ProtocolCorpus

structure LookupError where
  code : Code
  name : Text
  candidates : List Owner := []
  deriving Repr

namespace LookupError

def isAmbiguous (e : LookupError) : Bool :=
  e.code == .ambiguousInterface || e.code == .ambiguousEnumOwner

def message (e : LookupError) : Text :=
  let about := e.code.title ++ " " ++ e.name.quoted
  if e.isAmbiguous then
    about ++ ": candidates "
      ++ Text.join ", "
      (e.candidates.map fun c => c.protocol ++ " (" ++ c.document ++ ")")
  else about

end LookupError

/-- What a reference to an interface means, and the declaration in another
document if there is one. -/
structure Target where
  reference : Reference
  owner : Option Owner := none
  deriving Repr

/-- What a reference to an enumeration means, and the declaration in another
document if there is one. -/
structure EnumTarget where
  reference : EnumReference
  owner : Option Owner := none
  deriving Repr

namespace Resolution

def stripRoot? (start name : Text) : Option Text :=
  if start.isEmpty then none
  else
    match Text.stripFront? start name with
    | some rest => if rest.isEmpty then none else some rest
    | none => none

/-- The one declaration of an interface that a document can mean. -/
def owner (r : Registry) (d : Document) (name : Text)
    (unresolved ambiguous : Code) :
    Except LookupError Owner :=
  let owners := r.owners name
  if owners.isEmpty then .error { code := unresolved, name }
  else
    match narrow ⟨name, d.importNames⟩ owners NarrowingStep.cascade with
    | [o] => .ok o
    | survivors => .error { code := ambiguous, name, candidates := survivors }

def interface (r : Registry) (d : Document)
    (name : Text) : Except LookupError Target :=
  match d.interface? name with
  | some i => .ok { reference := { name := i.short, target := name } }
  | none =>
    match stripRoot? r.rules.rootStart name with
    | some rest =>
      .ok { reference := { qualifier := r.rules.rootAlias, name := rest,
                           target := name } }
    | none => do
      let o ← owner r d name .unresolvedInterface .ambiguousInterface
      return { reference := { qualifier := o.aliasName, name := o.name,
                              target := name }, owner := some o }

def withEnum (reference : Reference) (i : Option Interface)
    (enumName : Text) : EnumReference :=
  match i.bind fun i => i.enum? enumName with
  | some e =>
    { toReference := reference, bitfield := e.bitfield, found := true }
  | none => { toReference := reference }

def localEnum (i : Interface) (enumName : Text) : EnumTarget :=
  { reference := withEnum { name := i.short ++ "_" ++ enumName,
                            target := i.name } (some i) enumName }

def enumeration (r : Registry) (d : Document) (enclosing : Interface)
    (written : Text) :
    Except LookupError EnumTarget :=
  match Text.cut 0x2E written with
  | none => .ok (localEnum enclosing written)
  | some (name, enumName) =>
    match d.interface? name with
    | some i => .ok (localEnum i enumName)
    | none =>
      match stripRoot? r.rules.rootStart name with
      | some rest =>
        let reference : Reference :=
          { qualifier := r.rules.rootAlias, name := rest ++ "_" ++ enumName,
            target := name }
        .ok { reference := withEnum reference
                ((r.rootOwner? name).map Owner.declaration) enumName }
      | none => do
        let o ← owner r d name .unresolvedEnumOwner .ambiguousEnumOwner
        let reference : Reference :=
          { qualifier := o.aliasName, name := o.name ++ "_" ++ enumName,
            target := name }
        return { reference := withEnum reference (some o.declaration) enumName,
                 owner := some o }

end Resolution

end ProtocolCorpus
