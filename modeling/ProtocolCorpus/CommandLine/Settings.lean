import ProtocolCorpus.CommandLine.Console
import ProtocolCorpus.Compilation.Run
import ProtocolCorpus.Manifest

/-!
# Settings

How a corpus is compiled: the nearest manifest says it, and the command line
takes precedence. A cache that cannot be used costs a warning only.
-/

namespace ProtocolCorpus

namespace CommandLine

namespace Settings

/-- The directory of the corpus: the one on the command line, else that of the
manifest, else the present one. -/
def root (operands : List Text) (found : Bool)
    (m : Manifest) : Except Text Text :=
  match operands with
  | dir :: _ => .ok (Path.clean dir)
  | [] =>
    if found then m.corpusRoot.mapError fun e => m.path ++ ": " ++ e.message
    else .ok "."

def naming (o : Options) (m : Manifest) : NamingRules := {
  rootStart := o.rootStart.getD m.naming.rootStart
  rootAlias := o.rootAlias.getD m.naming.rootAlias
  rootProtocol := o.rootProtocol.getD m.naming.rootProtocol }

def cacheDir (e : Environment) (o : Options) : Except Text Text :=
  if o.cacheDir.isEmpty then e.cacheHome.map fun home =>
    Path.join [home, programName] else .ok o.cacheDir

def openCache (s : Session) : Session × Option Cache :=
  let opened := (cacheDir s.environment s.options).bind fun dir =>
    (Cache.prepare s.files dir).mapError FileError.message
  match opened with
  | .error m => (s.say ("warning: disk cache disabled: " ++ m ++ "\n"), none)
  | .ok (files, cache) => ({ s with files }, some cache)

end Settings

/-- What is compiled and how, and the manifest that was found. -/
structure Settings where
  compilation : CompilationOptions
  manifest : Manifest

def Session.settings (s : Session) : Except Text (Session × Settings) := do
  let o := s.options
  let (found, loaded) := Manifest.loadNearest s.files (s.operands.headD ".")
  let m ← loaded.mapError ManifestError.message
  let root ← Settings.root s.operands found m
  let (s, cache) := if m.cache && !o.noCache then Settings.openCache s
    else (s, none)
  let compilation : CompilationOptions := {
    root
    patterns := (o.patterns.map Csv.settle).getD m.patterns
    importBase := o.importBase.getD m.importBase
    naming := Settings.naming o m
    limit := o.limit
    timings := o.timings
    cache }
  return (s, ⟨compilation, m⟩)

end CommandLine

end ProtocolCorpus
