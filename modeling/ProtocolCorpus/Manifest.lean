import ProtocolCorpus.Corpus.Discovery
import ProtocolCorpus.Registry.Alias
import ProtocolCorpus.Toml.Parser

/-!
# The manifest of a corpus

A manifest names the root of a corpus and how it is compiled. It stands in the
directory of the corpus or above it, and the nearest one counts. What it does
not say keeps its default.
-/

namespace ProtocolCorpus

structure Manifest where
  /-- The file it was read from; empty if there is none. -/
  path : Text := []
  dir : Text := []
  root : Text := "."
  /-- Patterns of the documents that belong to the corpus. -/
  patterns : List Text := []
  naming : NamingRules := {}
  importBase : Text := "wlbind/protocols"
  format : Text := "json"
  jobs : Int := 0
  cache : Bool := true
  deriving Repr, Inhabited

inductive ManifestError
  | unreadable (path : Text) (cause : FileError)
  | unknowable (path : Text) (cause : FileError)
  | malformed (path : Text)
  | rootMissing (path : Text)
  | unknownKeys (path : Text) (keys : List Toml.Key)
  | unknownFormat (path format : Text)
  deriving DecidableEq, Repr

inductive RootError
  | missing
  | absolute (root : Text)
  | escaping (root : Text)
  deriving DecidableEq, Repr

def RootError.message : RootError → Text
  | .missing => "missing [corpus].root"
  | .absolute root =>
  "invalid [corpus].root " ++ root.quoted ++ ": must be relative"
  | .escaping root =>
    "invalid [corpus].root " ++ root.quoted ++ ": escapes manifest directory"

def ManifestError.message : ManifestError → Text
  | .unreadable path cause => path ++ ": " ++ cause.message
  | .unknowable path cause =>
  "failed to stat " ++ path.quoted ++ ": " ++ cause.message
  | .malformed path => path ++ ": failed to parse TOML"
  | .rootMissing path => path ++ ": " ++ RootError.missing.message
  | .unknownKeys path keys =>
    path ++ ": unknown keys: " ++ Text.join ", " (keys.map Toml.showKey)
  | .unknownFormat path format =>
    path ++ ": unknown output format " ++ format.quoted

namespace Manifest

/-- A setting: the table and the name it stands under, and how it is taken from
a value. -/
structure Setting where
  table : Text
  name : Text
  set : Toml.Value → Manifest → Option Manifest

def textSetting (table name : Text) (set : Text → Manifest → Manifest) :
    Setting where
  table := table
  name := name
  set v m :=
    match v with
    | .text t => some (set t m)
    | _ => none

def texts? (vs : List Toml.Value) : Option (List Text) :=
  vs.mapM fun v =>
    match v with
    | .text t => some t
    | _ => none

def settings : List Setting := [
  textSetting "corpus" "root" fun t m => { m with root := t },
  { table := "corpus", name := "include", set := fun v m =>
      match v with
      | .list vs => (texts? vs).map fun ts => { m with patterns := ts }
      | _ => none },
  textSetting "naming" "root_prefix" fun t m =>
    { m with naming := { m.naming with rootStart := t } },
  textSetting "naming" "root_alias" fun t m =>
    { m with naming := { m.naming with rootAlias := t } },
  textSetting "naming" "root_protocol" fun t m =>
    { m with naming := { m.naming with rootProtocol := t } },
  textSetting "output" "import_base" fun t m => { m with importBase := t },
  textSetting "output" "format" fun t m => { m with format := t },
  { table := "build", name := "jobs", set := fun v m =>
      match v with
      | .int n => some { m with jobs := n }
      | _ => none },
  { table := "build", name := "cache", set := fun v m =>
      match v with
      | .bool b => some { m with cache := b }
      | _ => none }]

def tableNames : List Text := ["corpus", "naming", "output", "build"]

/-- The name that a key means: an equal one, else one that is equal up to case.
-/
def meant? (names : List Text) (key : Text) : Option Text :=
  if names.contains key then some key
  else names.find? fun n => Text.equalsFolded key n

def readTable (table : Text) (ms : Toml.Members)
    (m : Manifest) : Option Manifest :=
  let here := settings.filter fun s => s.table == table
  ms.foldlM (fun m (key, v) =>
    match (meant? (here.map Setting.name) key).bind fun n =>
        here.find? fun s => s.name == n with
    | some s => s.set v m
    | none => some m) m

def readTables (ms : Toml.Members) (m : Manifest) : Option Manifest :=
  ms.foldlM (fun m (key, v) =>
    match meant? tableNames key with
    | none => some m
    | some table =>
      match v with
      | .table inner => readTable table inner m
      | _ => none) m

def isKnown : Toml.Key → Bool
  | [table] => (meant? tableNames table).isSome
  | [table, name] =>
    match meant? tableNames table with
    | some t =>
      (meant? ((settings.filter fun s => s.table == t).map Setting.name)
        name).isSome
    | none => false
  | _ => false

def formats : List Text := ["json", "yaml", "msgpack"]

def lacksRoot (ms : Toml.Members) : Bool :=
  match ms.lookup ("corpus" : Text) with
  | some (.table inner) => (inner.lookup ("root" : Text)).isNone
  | some _ => true
  | none => false

def parse (path text : Text) : Except ManifestError Manifest :=
  match (Toml.parse? text).bind fun b => (readTables b.root {}).map fun m =>
    (b, m) with
  | none => .error (.malformed path)
  | some (b, m) =>
    let unknown := b.written.filter fun k => !isKnown k
    if lacksRoot b.root then .error (.rootMissing path)
    else if !unknown.isEmpty then .error (.unknownKeys path unknown)
    else if !formats.contains m.format then
      .error (.unknownFormat path m.format)
    else .ok { m with path, dir := Path.dir path }

def load (fs : FileSystem) (path : Text) : Except ManifestError Manifest :=
  match fs.read path with
  | .error e => .error (.unreadable path e)
  | .ok text => parse path text

def fileName : Text := "wlbind.toml"

def upward (dir : Text) : List Text :=
  dir :: (FileSystem.ancestors dir).reverse

def findIn (fs : FileSystem) : List Text → Except ManifestError (Option Text)
  | [] => .ok none
  | dir :: dirs =>
    let candidate := Path.join [dir, fileName]
    match fs.inspect "stat" candidate with
    | .ok _ => .ok (some candidate)
    | .error e =>
      if e.missing then findIn fs dirs else .error (.unknowable candidate e)

def find (fs : FileSystem)
    (start : Text) : Except ManifestError (Option Text) :=
  findIn fs (upward (fs.absolute start))

/-- The manifest nearest to a directory, or the defaults if there is none; and
whether there is one. -/
def loadNearest (fs : FileSystem)
    (start : Text) : Bool × Except ManifestError Manifest :=
  match find fs start with
  | .error e => (false, .error e)
  | .ok none => (false, .ok {})
  | .ok (some path) => (true, load fs path)

def corpusRoot (m : Manifest) : Except RootError Text :=
  let root := Text.trim m.root
  if root.isEmpty then .error .missing
  else if Path.isAbsolute root then .error (.absolute root)
  else
    let full := Path.join [m.dir, Path.clean root]
    if Path.isWithin m.dir full then .ok full else .error (.escaping root)

end Manifest

end ProtocolCorpus
