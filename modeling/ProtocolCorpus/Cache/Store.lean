import ProtocolCorpus.Cache.Entry
import ProtocolCorpus.FileSystem

/-!
# The cache

A cache is a directory with one file for each entry, named by the digest of
everything the entry depends on. An entry is written to a temporary file first,
which then takes its place at once, so that whatever goes wrong on the way, the
entries that can be read are those from before.
-/

namespace ProtocolCorpus

structure Cache where
  dir : Text
  deriving DecidableEq, Repr, Inhabited

inductive CacheError
  | unreadable (cause : FileError)
  /-- The file holds no entry. -/
  | damaged
  deriving DecidableEq, Repr, Inhabited

namespace Cache

def entries (c : Cache) : Text :=
  Path.join [c.dir, "ir"]

def path (c : Cache) (key : Text) : Text :=
  Path.join [c.dir, "ir", Text.hex key ++ ".mp"]

def prepare (fs : FileSystem)
    (dir : Text) : Except FileError (FileSystem × Cache) :=
  (fs.ensureDirectory dir).map fun fs => (fs, ⟨dir⟩)

def install (fs : FileSystem) (temporary target content : Text) :
    Except FileError FileSystem := do
  let fs ← fs.fill temporary content
  let fs ← fs.close temporary
  fs.rename temporary target

/-- Put an entry under a key. If something goes wrong, the temporary file is
removed. -/
def put (c : Cache) (fs : FileSystem) (key : Text)
    (e : CacheEntry) : FileSystem × Option FileError :=
  match fs.ensureDirectory c.entries with
  | .error error => (fs, some error)
  | .ok fs =>
    match fs.makeTemporary c.entries with
    | .error error => (fs, some error)
    | .ok (fs, temporary) =>
      match install fs temporary (c.path key) e.encode with
      | .error error => (fs.remove temporary, some error)
      | .ok fs => (fs, none)

/-- Look for the entry under a key. One that was written by another version is
not there; that a file cannot be read, or holds no entry, is an error. -/
def get (c : Cache) (fs : FileSystem)
    (key : Text) : Except CacheError (Option CacheEntry) :=
  match fs.read (c.path key) with
  | .error error =>
    if error.missing then .ok none else .error (.unreadable error)
  | .ok content =>
    if (CacheEntry.read? content).isNone then .error .damaged
    else .ok (CacheEntry.decode? content)

/-- The entry under a key. What cannot be read is as good as not there. -/
def get? (c : Cache) (fs : FileSystem) (key : Text) : Option CacheEntry :=
  (c.get fs key).toOption.join

def drop (c : Cache) (fs : FileSystem) : FileSystem × Option FileError :=
  let fs := fs.removeAll c.dir
  match fs.ensureDirectory c.dir with
  | .error error => (fs, some error)
  | .ok fs => (fs, none)

end Cache

end ProtocolCorpus
