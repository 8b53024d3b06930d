import ProtocolCorpus.CommandLine.Settings
import ProtocolCorpus.Diagnostic.Sarif
import ProtocolCorpus.Diagnostic.Short
import ProtocolCorpus.Interchange.Format
import ProtocolCorpus.Registry.Listing
import ProtocolCorpus.Version

/-!
# Runs of the program

A run reads the arguments, prepares a session and either ends there or compiles
a corpus and reports on it. The compilation stands by itself in a plan, so that
one who carries the plan out can measure it.
-/

namespace ProtocolCorpus

namespace CommandLine

inductive Plan
  | done (o : Outcome)
  | compile (s : Session) (o : CompilationOptions)
  (report : Session → Compilation → Outcome)

structure DiagnosticFormat where
  format : Text := "pretty"
  mode : PathMode := .auto
  notes : Bool := false
  colours : Bool := false

namespace Session

/-- The session behind a compilation: the files as it left them, and its events
where they belong. -/
def afterCompilation (s : Session) (c : Compilation) : Session :=
  let s := { s with files := c.store, tracer := c.tracer }
  if s.tracing.usesFile then
    { s with files := s.files.put s.tracing.path (.file c.tracer.output) }
  else if s.tracing.streams then s.say c.tracer.output
  else s

/-- A session in which something can be wrong, which ends it. -/
def orFail (s : Session) (x : Except Text α) (next : α → Plan) : Plan :=
  match x with
  | .error m => .done (s.finish (.failed m))
  | .ok a => next a

/-- The diagnostics of a compilation in a format. Only one format shows the
timings. -/
def diagnostics (s : Session) (c : Compilation) (d : DiagnosticFormat) :
    Except Text Text :=
  let bag := if d.format == "json" then c.bag
    else c.bag.filter fun x => x.code != .timings
  let places : Places :=
    { files := some c.files, mode := d.mode, cwd := s.files.workingDirectory }
  if d.format == "pretty" then
    .ok (Diagnostic.Pretty.all
      { colours := d.colours, context := 1, showNotes := d.notes,
        showCoordinates := true } places bag.items.toList)
  else if d.format == "short" then
    let t := Diagnostic.shortAll (some c.files) d.notes bag.items.toList
    .ok (if t.isEmpty then [] else t ++ "\n")
  else if d.format == "json" then
    .ok (Diagnostic.Report.render
      { positions := true, notes := d.notes, candidates := true } places bag)
  else if d.format == "sarif" then
    .ok (Diagnostic.Sarif.render { places with mode := .auto }
      { tool := programName, version := ({} : Build).version,
        arguments := s.arguments } bag)
  else .error ("unknown format: " ++ d.format)

def sayTimings (s : Session) (c : Compilation) : Session :=
  match c.timer with
  | none => s
  | some t =>
    let s := s.say t.report.table
    if c.cacheHit then s.say "  (compiled IR loaded from cache)\n" else s

def reportFailure (s : Session) (c : Compilation) : Outcome :=
  let shown := s.messageColours.bind fun colours =>
    s.diagnostics { c with bag := c.bag.sort } { colours }
  match shown with
  | .error m => s.finish (.failed m)
  | .ok t => (s.say t).finish .reported

/-- The reason why a compilation did not come to its end, if it is not that
errors were reported. -/
def unreported? (c : Compilation) : Option Text :=
  match c.failure with
  | none => none
  | some .aborted => none
  | some f => some f.message

def checkFormat (s : Session) : Except Text (DiagnosticFormat × Severity) := do
  let o := s.options
  let mode ← match PathMode.parse? o.pathMode with
    | some m => pure m
    | none => .error ("unknown path mode: " ++ o.pathMode)
  let least ← match Severity.parse? o.leastSeverity with
    | some v => pure v
    | none => .error (Severity.unknownMessage o.leastSeverity)
  if least == .error && o.warningsAsErrors then
    .error "min-severity=error hides the warnings that warnings-as-errors checks"
  let colours ← s.outputColours
  return ({ format := o.format.getD "pretty", mode, notes := o.withNotes,
            colours }, least)

def reportCheck (d : DiagnosticFormat) (least : Severity) (s : Session)
    (c : Compilation) : Outcome :=
  match unreported? c with
  | some m => s.finish (.failed m)
  | none =>
    let bag :=
      (c.bag.filter fun x => least.level ≤ x.severity.level ||
        x.code == .timings).sort
    match s.diagnostics { c with bag } d with
    | .error m => s.finish (.failed m)
    | .ok t =>
      let s := (s.print t).sayTimings c
      if bag.hasErrors || (s.options.warningsAsErrors && bag.hasWarnings) then
        s.finish .reported
      else if s.options.quiet || d.format != "pretty" then s.finish .success
      else (s.say
        ("checked " ++ Text.ofNat c.documents.length ++ " documents\n")).finish
        .success

def check (s : Session) : Plan :=
  s.orFail s.checkFormat fun (d, least) =>
    s.orFail s.settings fun (s, v) =>
      .compile s v.compilation (reportCheck d least)

def choose (chosen : List Text) (c : Interchange.Corpus) :
    Except Text Interchange.Corpus :=
  if chosen.isEmpty then .ok c
  else
    let documents := c.documents.getD []
    let unknown := chosen.filter fun id => !documents.any fun d => d.path == id
    if unknown.isEmpty then
      .ok { c with
          documents := some (documents.filter fun d => chosen.contains d.path) }
    else .error
      ("unknown documents: " ++ Text.join ", "
      (Text.sort (Text.distinct unknown)))

def writeCorpus (format : Interchange.Format) (s : Session)
    (c : Compilation) : Outcome :=
  match choose (Csv.settle s.options.chosen) c.corpus with
  | .error m => s.finish (.failed m)
  | .ok corpus =>
    let content := corpus.write format
    if s.options.output == "-" then (s.print content).finish .success
    else
      match s.files.create s.options.output content with
      | .error e => s.finish (.failed e.message)
      | .ok files => { s with files }.finish .success

def reportIr (format : Interchange.Format) (s : Session)
    (c : Compilation) : Outcome :=
  match c.failure with
  | some .aborted => s.reportFailure c
  | some f => s.finish (.failed f.message)
  | none => (s.sayTimings c).writeCorpus format c

def ir (s : Session) : Plan :=
  s.orFail s.settings fun (s, v) =>
    let word := s.options.format.getD []
    let word := if word.isEmpty then v.manifest.format else word
    match Interchange.Format.parse? word with
    | none => .done (s.finish (.failed (Interchange.Format.unknownName word)))
    | some format => .compile s v.compilation (reportIr format)

def reportRegistry (s : Session) (c : Compilation) : Outcome :=
  match unreported? c, c.registry with
  | some m, _ => s.finish (.failed m)
  | none, none => s.reportFailure c
  | none, some r =>
    let s := s.print (r.ownerTable s.options.interfaceStart).render
    let s := if s.options.listDocuments
      then s.print ("\n" ++ r.documentTable.render) else s
    let s := s.sayTimings c
    if c.bag.hasErrors then s.reportFailure c else s.finish .success

def registry (s : Session) : Plan :=
  s.orFail s.outputColours fun _ =>
    s.orFail s.settings fun (s, v) => .compile s v.compilation reportRegistry

def buildRecord (b : Build) : Text :=
  Json.document (.sparse [
    ("tool", some (.text programName)),
    ("version", some (.text b.version)),
    ("ir_schema", some (.int Interchange.schemaVersion)),
    ("git_commit", Tree.textOr b.commit),
    ("build_date", Tree.textOr b.date)])

/-- Show the build. A session in which that fails is left as it is. -/
def version (s : Session) : Plan :=
  let word := s.options.format.getD "pretty"
  let shown : Except Text Text :=
    if word.lower == "json" then .ok (buildRecord {})
    else if word.lower == "pretty" then
      s.outputColours.map fun colours => ({} : Build).banner colours ++ "\n"
    else .error
      ("unsupported format " ++ word.quoted ++ " (must be pretty or json)")
  .done (match shown with
    | .error m => s.toConsole.conclude (.failed m)
    | .ok t => (s.print t).finish .success)

end Session

def usage : Text :=
  "wlbind loads a corpus of Wayland protocol XML documents, resolves every\n"
    ++ "cross-document reference and emits an IR ready for binding generation\n\n"
    ++ "Usage:\n  wlbind [command]\n\nAvailable Commands:\n"
    ++ Command.all.flatMap fun c => "  " ++ Text.padRight 11 c.name ++ " " ++
    c.summary ++ "\n"

def Request.plan (e : Environment) (arguments : List Text) : Request → Plan
  | .showHelp => .done { files := e.files, output := usage }
  | .showVersion =>
    .done { files := e.files,
            output :=
              programName ++ " version " ++ ({} : Build).version ++ "\n" }
  | .run command options operands =>
    match Session.start e options operands arguments with
    | .error o => .done o
    | .ok s =>
      match command with
      | .check => s.check
      | .ir => s.ir
      | .registry => s.registry
      | .version => s.version
      | .help | .completion => .done { files := e.files, output := usage }

def plan (e : Environment) (arguments : List Text) : Plan :=
  match Arguments.request arguments with
  | .error error =>
    .done (Console.conclude { files := e.files } (.failed error.message))
  | .ok r => r.plan e arguments

def Plan.outcome : Plan → Outcome
  | .done o => o
  | .compile s o report =>
    let c := ProtocolCorpus.compile o s.files s.tracer
    report (s.afterCompilation c) c

def run (e : Environment) (arguments : List Text) : Outcome :=
  (plan e arguments).outcome

end CommandLine

end ProtocolCorpus
