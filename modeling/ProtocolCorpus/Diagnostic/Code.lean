import ProtocolCorpus.Text.Basic

/-!
# Diagnostic codes

Every diagnostic has a stable number. The thousands digit tells which part of
the work it comes from, and the identifier shown to users spells that part out.
-/

namespace ProtocolCorpus

structure Code where
  number : UInt16
  deriving DecidableEq, Repr, Inhabited, Hashable

namespace Code

def malformed : Code := ⟨1001⟩
def missingAttribute : Code := ⟨1002⟩
def invalidBoolean : Code := ⟨1003⟩
def invalidInteger : Code := ⟨1004⟩
def unknownArgumentType : Code := ⟨1005⟩
def unexpectedElement : Code := ⟨1006⟩
def missingProtocol : Code := ⟨1007⟩
def emptyInterfaceSet : Code := ⟨2001⟩
def emptyEnumeration : Code := ⟨2002⟩
def multipleTypedReturns : Code := ⟨2003⟩
def destructorNotMarked : Code := ⟨2004⟩
def nullableUnsupported : Code := ⟨2005⟩
def interfaceUnsupported : Code := ⟨2006⟩
def enumUnsupported : Code := ⟨2007⟩
def duplicateInterface : Code := ⟨2008⟩
def duplicateMessage : Code := ⟨2009⟩
def duplicateEnumeration : Code := ⟨2010⟩
def unresolvedInterface : Code := ⟨3001⟩
def ambiguousInterface : Code := ⟨3002⟩
def unresolvedEnumOwner : Code := ⟨3003⟩
def ambiguousEnumOwner : Code := ⟨3004⟩
def enumTypeMismatch : Code := ⟨3005⟩
def importAliasCollision : Code := ⟨3006⟩
def enumNotFound : Code := ⟨3007⟩
def loadFailed : Code := ⟨4001⟩
def duplicateDocument : Code := ⟨5001⟩
def importCycle : Code := ⟨5002⟩
def noDocuments : Code := ⟨5003⟩
def aliasExhausted : Code := ⟨5004⟩
def timings : Code := ⟨6001⟩

def titles : List (Nat × String) :=
  [(0, "Unknown error"),
    (1000, "Document information"),
    (1001, "Malformed document"),
    (1002, "Missing attribute"),
    (1003, "Invalid boolean attribute"),
    (1004, "Invalid integer attribute"),
    (1005, "Unknown argument type"),
    (1006, "Unexpected element"),
    (1007, "Missing protocol element"),
    (2000, "Validation information"),
    (2001, "Protocol declares no interfaces"),
    (2002, "Enumeration has no entries"),
    (2003, "Multiple typed return arguments"),
    (2004, "Destructor name not marked as destructor"),
    (2005, "Nullable on unsupported argument kind"),
    (2006, "Interface on unsupported argument kind"),
    (2007, "Enumeration on unsupported argument kind"),
    (2008, "Duplicate interface in document"),
    (2009, "Duplicate message in interface"),
    (2010, "Duplicate enumeration in interface"),
    (3000, "Resolution information"),
    (3001, "Unresolved interface reference"),
    (3002, "Ambiguous interface reference"),
    (3003, "Unresolved enumeration owner"),
    (3004, "Ambiguous enumeration owner"),
    (3005, "Enum reference type mismatch"),
    (3006, "Import alias collision"),
    (3007, "Enumeration not found in owner"),
    (4001, "Failed to load document"),
    (5000, "Corpus information"),
    (5001, "Duplicate document identity"),
    (5002, "Import cycle between documents"),
    (5003, "No documents in corpus"),
    (5004, "Alias assignment exhausted"),
    (6000, "Observability information"),
    (6001, "Pipeline timings")]

/-- What the code is about; a number without a title of its own is an unknown
error. -/
def title (c : Code) : Text :=
  Text.ofString ((titles.lookup c.number.toNat).getD "Unknown error")

/-- The letters for the part of the work that the thousands digit stands for. -/
def area? (c : Code) : Option String :=
  match c.number.toNat / 1000 with
  | 1 => some "WLX"
  | 2 => some "VAL"
  | 3 => some "RES"
  | 4 => some "IO"
  | 5 => some "PRJ"
  | 6 => some "OBS"
  | _ => none

/-- The identifier shown to users, such as `VAL2003`. -/
def id (c : Code) : Text :=
  match c.area? with
  | some a => Text.ofString a ++ Text.padLeft 4 0x30 (Text.ofNat c.number.toNat)
  | none => "E0000"

def describe (c : Code) : Text :=
  "[" ++ c.id ++ "]: " ++ c.title

end Code

end ProtocolCorpus
