import ProtocolCorpus.Path

/-!
# File systems

A file system is a value: a table of files and directories, and the faults it
shows. It speaks one of two dialects, that of a store in memory or that of the
host, which differ in how they name a missing file and in what a relative path
means.
-/

namespace ProtocolCorpus

inductive Node
  | directory
  | file (content : Text)
  deriving DecidableEq, Repr, Inhabited

/-- How a file system speaks. -/
inductive Dialect
  /-- Relative paths are names of their own. -/
  | memory
  /-- Relative paths start at the working directory. -/
  | host (workingDirectory : Text)
  deriving DecidableEq, Repr, Inhabited

structure FileError where
  message : Text
  /-- Nothing stands at the path. -/
  missing : Bool := false
  deriving DecidableEq, Repr, Inhabited

inductive FileChange
  | makeDirectory
  | makeTemporary
  | write
  | close
  | rename
  deriving DecidableEq, Repr, Inhabited

/-- Files and directories by clean path, and injected faults. -/
structure FileSystem where
  dialect : Dialect := .memory
  nodes : List (Text × Node) := [("/", .directory)]
  unreadable : List Text := []
  unknowable : List Text := []
  failing : List FileChange := []
  deriving Repr, Inhabited

namespace FileSystem

def locate (fs : FileSystem) (path : Text) : Text :=
  match fs.dialect with
  | .memory => if Path.clean path == "." then "/" else Path.clean path
  | .host cwd =>
    if Path.isAbsolute path then Path.clean path
    else Path.clean (cwd ++ "/" ++ path)

def absolute (fs : FileSystem) (path : Text) : Text :=
  if Path.isAbsolute path then Path.clean path
  else
    match fs.dialect with
    | .memory => Path.clean ("/" ++ path)
    | .host cwd => Path.clean (cwd ++ "/" ++ path)

def workingDirectory (fs : FileSystem) : Text :=
  match fs.dialect with
  | .memory => "/"
  | .host cwd => cwd

/-- What stands at a path. The host knows nothing at the empty path. -/
def node? (fs : FileSystem) (path : Text) : Option Node :=
  if path.isEmpty && fs.dialect != .memory then none
  else fs.nodes.lookup (fs.locate path)

def injected : FileError :=
  { message := "injected fault" }

/-- The directories above a clean path, the outermost first. -/
def ancestors (path : Text) : List Text :=
  let segs := Path.segments path
  let lead : Text := if Path.isAbsolute path then "/" else ""
  (List.range segs.length).map fun n =>
    if n = 0 then (if lead.isEmpty then "." else lead)
    else lead ++ Text.join "/" (segs.take n)

def fileAt (fs : FileSystem) (key : Text) : Bool :=
  match fs.nodes.lookup key with
  | some (.file _) => true
  | _ => false

/-- A file stands where a directory on the way to the path should. -/
def blocked (fs : FileSystem) (path : Text) : Bool :=
  (ancestors (fs.locate path)).any fs.fileAt

def missing (fs : FileSystem) (operation path : Text) : FileError :=
  match fs.dialect with
  | .memory =>
    { message := "open " ++ fs.locate path ++ ": file does not exist",
      missing := true }
  | .host _ =>
    if fs.blocked path then
      { message := operation ++ " " ++ path ++ ": not a directory" }
    else { message := operation ++ " " ++ path ++ ": no such file or directory",
           missing := true }

def inspect (fs : FileSystem) (operation path : Text) : Except FileError Node :=
  if fs.unknowable.contains (fs.locate path) then .error injected
  else
    match fs.node? path with
    | some n => .ok n
    | none => .error (fs.missing operation path)

/-- The content of a file. A store in memory reads a directory as empty. -/
def read (fs : FileSystem) (path : Text) : Except FileError Text :=
  if fs.unreadable.contains (fs.locate path) then .error injected
  else
    match fs.node? path with
    | some (.file t) => .ok t
    | some .directory =>
      match fs.dialect with
      | .memory => .ok []
      | .host _ => .error { message := "read " ++ path ++ ": is a directory" }
    | none => .error (fs.missing "open" path)

def put (fs : FileSystem) (path : Text) (n : Node) : FileSystem :=
  { fs with
    nodes := fs.nodes.filter (fun e => e.1 != fs.locate path) ++
      [(fs.locate path, n)] }

def makeParents (fs : FileSystem) (path : Text) : FileSystem :=
  (ancestors (fs.locate path)).foldl (fun fs p =>
    if (fs.nodes.lookup p).isSome then fs
    else { fs with nodes := fs.nodes ++ [(p, .directory)] }) fs

def makeDirectory (fs : FileSystem) (path : Text) : FileSystem :=
  let fs := fs.makeParents path
  if (fs.node? path).isSome then fs else fs.put path .directory

def write (fs : FileSystem) (path content : Text) : FileSystem :=
  (fs.makeParents path).put path (.file content)

/-- Make a file in a directory that is there, as a program asks for it. -/
def create (fs : FileSystem)
    (path content : Text) : Except FileError FileSystem :=
  match fs.node? path with
  | some .directory =>
    .error { message := "open " ++ path ++ ": is a directory" }
  | some (.file _) => .ok (fs.put path (.file content))
  | none =>
    if !path.isEmpty && fs.nodes.lookup (Path.dir (fs.locate path)) ==
      some .directory then
      .ok (fs.put path (.file content))
    else .error (fs.missing "open" path)

def remove (fs : FileSystem) (path : Text) : FileSystem :=
  { fs with nodes := fs.nodes.filter fun e => e.1 != fs.locate path }

/-- The table without a path and everything below it. A path without segments is
the top of all others. -/
def removeAll (fs : FileSystem) (path : Text) : FileSystem :=
  let key := fs.locate path
  let lead : Text := if (Path.segments key).isEmpty then [] else key ++ "/"
  { fs with
    nodes := fs.nodes.filter fun e => e.1 != key && !Text.startsWith e.1 lead }

/-- Make a directory and all above it, as a program asks for it. -/
def ensureDirectory (fs : FileSystem)
    (path : Text) : Except FileError FileSystem :=
  if fs.failing.contains .makeDirectory then .error injected
  else
    let key := fs.locate path
    match (ancestors key ++ [key]).find? fs.fileAt with
    | some p =>
      let up := (Path.segments key).length - (Path.segments p).length
      let shown := (List.range up).foldl (fun q _ => Path.dir q) path
      .error { message := "mkdir " ++ shown ++ ": not a directory" }
    | none => .ok (fs.makeDirectory path)

def freshName (fs : FileSystem) (directory : Text) : Text :=
  let names := (List.range (fs.nodes.length + 1)).map fun n =>
    Path.join [directory, "tmp-" ++ Text.ofNat n]
  (names.find? fun p => (fs.node? p).isNone).getD directory

/-- Make an empty file with a name that was not taken; the answer has its path.
-/
def makeTemporary (fs : FileSystem)
    (directory : Text) : Except FileError (FileSystem × Text) :=
  if fs.failing.contains .makeTemporary then .error injected
  else .ok (fs.put (fs.freshName directory) (.file []), fs.freshName directory)

def fill (fs : FileSystem)
    (path content : Text) : Except FileError FileSystem :=
  if fs.failing.contains .write then .error injected
  else .ok (fs.put path (.file content))

def close (fs : FileSystem) (_path : Text) : Except FileError FileSystem :=
  if fs.failing.contains .close then .error injected else .ok fs

/-- Move a file to another path, where it replaces what stood there. -/
def rename (fs : FileSystem) (source target : Text) :
    Except FileError FileSystem :=
  if fs.failing.contains .rename then .error injected
  else
    match fs.node? source with
    | some n => .ok ((fs.remove source).put target n)
    | none => .error (fs.missing "rename" source)

/-- The files and directories below a directory, each with its segments from
there. -/
def below (fs : FileSystem) (path : Text) : List (List Text × Text × Node) :=
  let key := fs.locate path
  let lead := if key == "/" then key else key ++ "/"
  fs.nodes.filterMap fun (p, n) =>
    match Text.stripFront? lead p with
    | some rest =>
      if rest.isEmpty then none else some (Path.segments rest, p, n)
    | none => none

end FileSystem

end ProtocolCorpus
