import ProtocolCorpus.Diagnostic.Basic
import ProtocolCorpus.Markup.Stream

/-!
# Attributes of protocol documents

How the attributes of an element are looked up and read. Only attributes outside
any name space count. A value that cannot be read is reported, and a default
takes its place.
-/

namespace ProtocolCorpus

namespace Document

structure Attributes where
  element : Text
  attributes : List Markup.Attribute
  span : Span

/-- The number of an enumeration entry: decimal, or hexadecimal behind `0x` or
`0X`, within 32 bits. -/
def entryValue? (raw : Text) : Option UInt32 :=
  let t := Text.trim raw
  let number := match Text.stripFront? "0x" t, Text.stripFront? "0X" t with
    | some digits, _ => Text.natOfDigits? 16 digits
    | none, some digits => Text.natOfDigits? 16 digits
    | none, none => Text.natOfDigits? 10 t
  match number with
  | some n => if n < 0x100000000 then some (UInt32.ofNat n) else none
  | none => none

namespace Attributes

def get? (a : Attributes) (name : Text) : Option Text :=
  (a.attributes.find? fun x => x.name.space.isEmpty && x.name.localName ==
    name).map
    Markup.Attribute.value

def getD (a : Attributes) (name : Text) : Text :=
  (a.get? name).getD []

/-- The value of an attribute that must be there and say something. -/
def required (a : Attributes) (place : Coordinates) (name : Text) :
    Option Text × List Diagnostic :=
  match a.get? name with
  | some v =>
    if (Text.trim v).isEmpty then (none, missing) else (some v, [])
  | none => (none, missing)
where
  missing : List Diagnostic :=
    [.error .missingAttribute a.span place
      ("<" ++ a.element ++ "> requires attribute " ++ name.quoted)]

/-- An attribute that is `true` or `false`, and false if it is absent. -/
def boolean (a : Attributes) (place : Coordinates)
    (name : Text) : Bool × List Diagnostic :=
  match a.get? name with
  | none => (false, [])
  | some v =>
    if v == "true" then (true, [])
    else if v == "false" then (false, [])
    else (false, [.error .invalidBoolean a.span place
      ("attribute " ++ name.quoted ++ " of <" ++ a.element ++
      "> must be \"true\" or \"false\", got "
        ++ v.quoted)])

/-- An attribute that is a positive number, with a default for its absence. -/
def version (a : Attributes) (place : Coordinates) (name : Text)
    (absent : Int) :
    Int × List Diagnostic :=
  match a.get? name with
  | none => (absent, [])
  | some v =>
    match Text.int64? (Text.trim v) with
    | some n => if n < 1 then (absent, [refused v]) else (n, [])
    | none => (absent, [refused v])
where
  refused (v : Text) : Diagnostic :=
    .error .invalidInteger a.span place
      ("attribute " ++ name.quoted ++ " of <" ++ a.element ++
      "> must be a positive integer, got "
        ++ v.quoted)

end Attributes

end Document

end ProtocolCorpus
