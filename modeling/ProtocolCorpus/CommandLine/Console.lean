import ProtocolCorpus.CommandLine.Arguments
import ProtocolCorpus.Trace.Tracer

/-!
# Consoles

What a run of the program has to do with the world outside: the files it finds
and changes, the two streams it writes to, and its exit status. Tracing and
profiling surround every run.
-/

namespace ProtocolCorpus

namespace CommandLine

structure Environment where
  files : FileSystem
  /-- The directory for the caches of all programs, or why there is none. -/
  cacheHome : Except Text Text
  /-- The output goes to a terminal that shows colours. -/
  colourfulOutput : Bool := false
  /-- The messages go to a terminal that shows colours. -/
  colourfulMessages : Bool := false

structure Console where
  files : FileSystem
  output : Text := []
  messages : Text := []

structure Outcome extends Console where
  exit : Nat := 0

inductive Ending
  | success
  /-- It failed and has already said why. -/
  | reported
  | failed (message : Text)
  deriving DecidableEq, Repr

namespace Console

def print (c : Console) (t : Text) : Console :=
  { c with output := c.output ++ t }

def say (c : Console) (t : Text) : Console :=
  { c with messages := c.messages ++ t }

def conclude (c : Console) : Ending → Outcome
  | .success => { c with }
  | .reported => { c with exit := 1 }
  | .failed m => { c.say (programName ++ ": " ++ m ++ "\n") with exit := 1 }

def touch (c : Console) (path : Text) : Except FileError Console :=
  if path.isEmpty then .ok c
  else (c.files.create path []).map fun files => { c with files }

end Console

def Options.colours (o : Options) (colourful : Bool) : Except Text Bool :=
  if o.colour == "on" || o.colour == "always" then .ok true
  else if o.colour == "off" || o.colour == "never" then .ok false
  else if o.colour == "auto" || o.colour.isEmpty then .ok colourful
  else .error ("unknown color mode " ++ o.colour.quoted)

/-- What is traced, and how. A file for events turns tracing on. -/
def Options.tracing (o : Options) : Except Text Trace.Config :=
  match Trace.Level.parse? o.traceLevel with
  | none =>
    .error ("invalid trace level: " ++ Trace.Level.unknownMessage o.traceLevel)
  | some level =>
    let level := if level = .off && !o.trace.isEmpty then .phase else level
    if level = .off then .ok {}
    else
      match Trace.Mode.parse? o.traceMode,
        Trace.Format.parse? o.traceFormat with
      | none, _ =>
        .error ("invalid trace mode: " ++ Trace.Mode.unknownMessage o.traceMode)
      | _, none =>
        .error ("invalid trace format: " ++
          Trace.Format.unknownMessage o.traceFormat)
      | some mode, some format =>
        .ok { level, mode := some mode, format, path := o.trace,
              ring := o.traceRing }

/-- A console that is open for a run: the options it started with and its
tracer. -/
structure Session extends Console where
  environment : Environment
  options : Options
  operands : List Text
  arguments : List Text
  tracing : Trace.Config := {}
  tracer : Trace.Tracer := {}

namespace Session

/-- Open a session: the files for events and profiles are made. If that fails,
what was made stays. -/
def start (e : Environment) (options : Options)
    (operands arguments : List Text) :
    Except Outcome Session :=
  let console : Console := { files := e.files }
  let fail (c : Console) (m : Text) : Except Outcome Session :=
    .error (c.conclude (.failed m))
  match options.tracing with
  | .error m => fail console m
  | .ok tracing =>
    match tracing.openOutput console.files, tracing.tracer with
    | .error error, _ =>
      fail console ("failed to create tracer: " ++ error.message)
    | _, .error m => fail console ("failed to create tracer: " ++ m)
    | .ok files, .ok tracer =>
      let console := { console with files }
      match console.touch options.processorProfile with
      | .error error => fail console ("cpu profile: " ++ error.message)
      | .ok console =>
        match console.touch options.executionTrace with
        | .error error => fail console ("runtime trace: " ++ error.message)
        | .ok console =>
          .ok { console with
              environment := e, options, operands, arguments, tracing, tracer }

def print (s : Session) (t : Text) : Session :=
  { s with toConsole := s.toConsole.print t }

def say (s : Session) (t : Text) : Session :=
  { s with toConsole := s.toConsole.say t }

/-- Close the session: the profile of the memory is written, and kept events are
shown. -/
def close (s : Session) : Console :=
  let c := match s.toConsole.touch s.options.memoryProfile with
    | .ok c => c
    | .error error =>
      s.toConsole.say ("profile: heap profile: " ++ error.message ++ "\n")
  if s.tracing.mode = some .ring
    then c.say ((s.tracer.dump s.tracing.format).getD []) else c

def finish (s : Session) (ending : Ending) : Outcome :=
  s.close.conclude ending

def outputColours (s : Session) : Except Text Bool :=
  s.options.colours s.environment.colourfulOutput

def messageColours (s : Session) : Except Text Bool :=
  s.options.colours s.environment.colourfulMessages

end Session

end CommandLine

end ProtocolCorpus
