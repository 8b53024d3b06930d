import ProtocolCorpus.Path

/-!
# Identities of documents

A document is known by its slash path from the root of the corpus, and
is imported by that path without its extension, below a common base.
-/

namespace ProtocolCorpus

inductive IdentityError
  | empty
  | escaping
  deriving DecidableEq, Repr

def IdentityError.message : IdentityError → Text
  | .empty => "empty document path"
  | .escaping => "document path escapes corpus root"

namespace Corpus

def identity (path : Text) : Except IdentityError Text :=
  let p := Path.clean path
  if p == "." then .error .empty
  else if p == ".." || Text.startsWith p "../" || Path.isAbsolute p then
    .error .escaping
  else .ok p

def importPath (base path : Text) : Text :=
  let rel := (Text.stripBack? (Path.extension path) path).getD path
  let base := (Text.stripBack? "/" base).getD base
  if base.isEmpty then rel else base ++ "/" ++ rel

end Corpus

end ProtocolCorpus
