import ProtocolCorpus.Corpus.Identity
import ProtocolCorpus.Corpus.Pattern
import ProtocolCorpus.FileSystem
import ProtocolCorpus.Text.Quoted

/-!
# Finding the documents of a corpus

The documents of a corpus are the files below its root with the extension
`.xml`, of either case, that the include patterns admit. Directories with a
leading dot are not entered.
-/

namespace ProtocolCorpus

inductive DiscoveryError
  | invalidPattern (pattern : Text)
  | unreadable (root : Text) (cause : FileError)
  | noIdentity (root path : Text) (cause : IdentityError)
  deriving DecidableEq, Repr

namespace DiscoveryError

def message : DiscoveryError → Text
  | .invalidPattern p =>
  "invalid include pattern " ++ p.quoted ++ ": syntax error in pattern"
  | .unreadable root cause => "walk " ++ root ++ ": " ++ cause.message
  | .noIdentity root path cause =>
    "walk " ++ root ++ ": " ++ path ++ ": " ++ cause.message

def isMissing : DiscoveryError → Bool
  | .unreadable _ cause => cause.missing
  | _ => false

end DiscoveryError

namespace Corpus

/-- The patterns admit a document; no patterns admit all. A pattern that ends in
`/*` also admits what lies deeper. -/
def included (patterns : List Text) (id : Text) : Bool :=
  patterns.isEmpty || patterns.any fun p =>
    ((Pattern.parse? p).map fun chunks => Pattern.matchChunks chunks id).getD
      false
      || (match Text.stripBack? "/*" p with
        | some d => Text.startsWith id (d ++ "/")
        | none => false)

/-- A path from the root leads through a directory with a leading dot. -/
def isHidden (directories : List Text) : Bool :=
  directories.any fun s => s.head? == some 0x2E

def hasDocumentExtension (path : Text) : Bool :=
  Text.equalsFolded (Path.extension path) ".xml"

/-- The directories that are entered and cannot be read. -/
def unreadableDirectory? (fs : FileSystem) (root : Text) : Bool :=
  fs.unreadable.contains (fs.locate root)
    || (fs.below root).any fun (segs, p, n) =>
      n == .directory && !isHidden segs && fs.unreadable.contains p

def candidates (fs : FileSystem)
    (root : Text) : Except DiscoveryError (List Text) :=
  ((fs.below root).filter fun (segs, p, n) =>
    !(n == .directory || isHidden segs.dropLast ||
    !hasDocumentExtension p)).mapM fun (segs, p, _) =>
      (identity (Text.join "/" segs)).mapError (.noIdentity root p)

/-- The identities of the documents below a root, in ascending order. -/
def discover (fs : FileSystem) (root : Text) (patterns : List Text) :
    Except DiscoveryError (List Text) :=
  match patterns.find? fun p => (Pattern.parse? p).isNone with
  | some p => .error (.invalidPattern p)
  | none =>
    match fs.inspect "lstat" root with
    | .error e => .error (.unreadable root e)
    | .ok (.file _) =>
      if hasDocumentExtension root then .error (.noIdentity root root .empty)
      else .ok []
    | .ok .directory =>
      if unreadableDirectory? fs root then
        .error (.unreadable root FileSystem.injected)
      else (candidates fs root).map fun ids =>
        Text.sort (ids.filter (included patterns))

end Corpus

end ProtocolCorpus
