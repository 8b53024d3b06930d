import ProtocolCorpus.Registry.Basic
import ProtocolCorpus.Terminal.Table

/-!
# Listings of a registry

Who declares which interface, and under which aliases the documents are known,
as tables.
-/

namespace ProtocolCorpus

namespace Registry

def markRoot (name : Text) (root : Bool) : Text :=
  if root then name ++ " (root)" else name

def ownerRow (r : Registry) (label name : Text) (o : Owner) : List Text :=
  let root :=
    ((r.rootOwner? name).map fun root => root.document == o.document).getD false
  [label, o.protocol, markRoot o.aliasName root, o.document, o.importPath]

def ownerRows (r : Registry) (name : Text) : List (List Text) :=
  match r.owners name with
  | [] => []
  | o :: os => r.ownerRow name name o :: os.map (r.ownerRow "  ·" name)

def ownerTable (r : Registry) (start : Text) : Terminal.Table := {
  headers := ["Interface", "Protocol", "Alias", "Document", "Import path"]
  rows := (r.names.filter fun n => Text.startsWith n start).flatMap
    r.ownerRows }

def documentRow (d : Registration) : List Text :=
  [d.document, d.protocol, d.module, markRoot d.aliasName d.root,
    Text.join ", " d.imports]

def documentTable (r : Registry) : Terminal.Table := {
  headers := ["Document", "Protocol", "Module", "Alias", "Imports"]
  rows := r.documents.map documentRow }

end Registry

end ProtocolCorpus
