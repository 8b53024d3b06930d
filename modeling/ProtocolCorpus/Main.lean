import ProtocolCorpus.CommandLine.Run
import Std.Time.DateTime.Timestamp

/-!
# The program

The part of the host's files that a run can ask for is read first. Then the run
is carried out on it, with a clock beside the compilation, and in the end what
it has changed is written back.
-/

namespace ProtocolCorpus

namespace CommandLine

namespace Host

def path (t : Text) : String :=
  t.toString?.getD ""

/-- The content of a file; nothing if it cannot be read. -/
def content (p : Text) : IO Text := do
  try
    return (← IO.FS.readBinFile (path p)).toList
  catch _ => return []

def node? (p : Text) : IO (Option Node) := do
  try
    let real ← IO.FS.realPath (path p)
    return some (if ← real.isDir then .directory else .file [])
  catch _ => return none

def look (fs : FileSystem) (p : Text) : IO FileSystem := do
  let key := fs.locate p
  let mut fs := fs
  for q in FileSystem.ancestors key ++ [key] do
    if (fs.nodes.lookup q).isNone then
      if let some n ← node? q then
        fs := { fs with nodes := fs.nodes ++ [(q, n)] }
  return fs

def fetch (fs : FileSystem) (p : Text) : IO FileSystem := do
  let fs ← look fs p
  match fs.node? p with
  | some (.file _) => return fs.put p (.file (← content (fs.locate p)))
  | _ => return fs

/-- The names of all that stands below a directory. Links are not followed. -/
partial def namesBelow (dir : Text) : IO (List (Text × Node)) := do
  try
    let entries ← (← IO.FS.realPath (path dir)).readDir
    let mut found := #[]
    for entry in entries do
      let p := Path.join [dir, Text.ofString entry.fileName]
      if (← entry.path.symlinkMetadata).type == .dir then
        found := found.push (p, Node.directory) ++ (← namesBelow p).toArray
      else
        found := found.push (p, Node.file [])
    return found.toList
  catch _ => return []

def lookBelow (fs : FileSystem) (dir : Text) : IO FileSystem := do
  let fs ← look fs dir
  match fs.node? dir with
  | some .directory =>
    let names ← namesBelow (fs.locate dir)
    return { fs with
        nodes := fs.nodes ++ names.filter fun e =>
          (fs.nodes.lookup e.1).isNone }
  | _ => return fs

def cacheHome : IO (Except Text Text) := do
  match ← IO.getEnv "XDG_CACHE_HOME", ← IO.getEnv "HOME" with
  | some dir, home =>
    if dir.isEmpty then return inHome home else return .ok (Text.ofString dir)
  | none, home => return inHome home
where
  /-- The directory that is meant if none is named. -/
  inHome (home : Option String) : Except Text Text :=
    match home.filter (!·.isEmpty) with
    | some h => .ok (Path.join [Text.ofString h, ".cache"])
    | none => .error "$HOME is not defined"

/-- The files that a run asks for before it compiles anything. -/
def prepare (fs : FileSystem) (home : Except Text Text) (options : Options)
    (operands : List Text) :
    IO FileSystem := do
  let mut fs := fs
  for dir in Manifest.upward (fs.absolute (operands.headD ".")) do
    fs ← fetch fs (Path.join [dir, Manifest.fileName])
  for p in [options.trace, options.processorProfile, options.executionTrace,
    options.memoryProfile, options.output] do
    if !p.isEmpty then fs ← look fs p
  match Settings.cacheDir { files := fs, cacheHome := home } options with
  | .ok dir => look fs ({ dir } : Cache).entries
  | .error _ => return fs

def prepareCompilation (fs : FileSystem) (o : CompilationOptions) :
    IO FileSystem := do
  let mut fs ← lookBelow fs o.root
  match Corpus.discover fs o.root o.patterns with
  | .error _ => pure ()
  | .ok ids => for id in ids do fs ← fetch fs (Path.join [o.root, id])
  match Compilation.cachePath? o fs with
  | some p => fetch fs p
  | none => return fs

def now : IO Int := do
  return (← Std.Time.Timestamp.now).toNanosecondsSinceUnixEpoch.val / 1000

def compile (o : CompilationOptions) (store : FileSystem)
    (tracer : Trace.Tracer) : IO Compilation := do
  let o := Compilation.complete o
  let mut c := Compilation.start o store { tracer with now := ← now } 0
  for step in Compilation.steps o do
    let phases := (c.timer.map fun t => t.phases.size).getD 0
    let before := { c with tracer := { c.tracer with now := ← now } }
    let start ← IO.monoNanosNow
    c ← IO.lazyPure fun _ => Compilation.unlessFailed step before
    let elapsed := Int64.ofNat ((← IO.monoNanosNow) - start)
    c := { c with timer := c.timer.map fun t => t.charge phases elapsed }
  return Compilation.finish o { c with
      tracer := { c.tracer with now := ← now } }

def carryOut : Plan → IO Outcome
  | .done o => return o
  | .compile s o report => do
    let c ← compile o s.files s.tracer
    return report (s.afterCompilation c) c

/-- Write back what a run has changed. -/
def commit (before after : FileSystem) : IO Unit := do
  for (p, n) in after.nodes do
    if before.nodes.lookup p != some n then
      match n with
      | .directory => IO.FS.createDirAll (path p)
      | .file t => IO.FS.writeBinFile (path p) ⟨t.toArray⟩

def print (stream : IO.FS.Stream) (t : Text) : IO Unit := do
  stream.write ⟨t.toArray⟩
  stream.flush

def run (arguments : List Text) : IO UInt32 := do
  let cwd := Text.ofString (← IO.currentDir).toString
  let home ← cacheHome
  let plain := ((← IO.getEnv "NO_COLOR").getD "").isEmpty
  let environment (files : FileSystem) : IO Environment := return {
    files
    cacheHome := home
    colourfulOutput := (← (← IO.getStdout).isTty) && plain
    colourfulMessages := (← (← IO.getStderr).isTty) && plain }
  let mut fs ← look { dialect := .host cwd } cwd
  if let .ok (.run _ options operands) := Arguments.request arguments then
    fs ← prepare fs home options operands
    if let .compile _ o _ := plan (← environment fs) arguments then
      fs ← prepareCompilation fs o
  let outcome ← carryOut (plan (← environment fs) arguments)
  commit fs outcome.files
  print (← IO.getStdout) outcome.output
  print (← IO.getStderr) outcome.messages
  return outcome.exit.toUInt32

end Host

end CommandLine

end ProtocolCorpus

def main (arguments : List String) : IO UInt32 :=
  ProtocolCorpus.CommandLine.Host.run
    (arguments.map ProtocolCorpus.Text.ofString)
