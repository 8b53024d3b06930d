import ProtocolCorpus.Csv
import ProtocolCorpus.Number.Literal
import ProtocolCorpus.Text.Quoted

/-!
# Options

The options of all commands, and the flags that set them. A flag takes its value
from a text, or says what is wrong with it.
-/

namespace ProtocolCorpus

namespace CommandLine

/-- What can be chosen on the command line. What is `none` was not said and is
decided elsewhere. -/
structure Options where
  help : Bool := false
  version : Bool := false
  colour : Text := "auto"
  quiet : Bool := false
  timings : Bool := false
  /-- The number of diagnostics a bag may hold. -/
  limit : Int := 100
  trace : Text := []
  traceLevel : Text := "off"
  traceMode : Text := "stream"
  traceFormat : Text := "auto"
  traceRing : Int := 4096
  processorProfile : Text := []
  memoryProfile : Text := []
  executionTrace : Text := []
  jobs : Option Int := none
  importBase : Option Text := none
  patterns : Option (List Text) := none
  rootStart : Option Text := none
  rootAlias : Option Text := none
  rootProtocol : Option Text := none
  noCache : Bool := false
  cacheDir : Text := []
  format : Option Text := none
  pathMode : Text := "auto"
  withNotes : Bool := false
  leastSeverity : Text := "info"
  warningsAsErrors : Bool := false
  output : Text := "-"
  chosen : List Text := []
  listDocuments : Bool := false
  interfaceStart : Text := []
  deriving DecidableEq, Repr

structure Flag where
  name : Text
  letter : Option UInt8 := none
  /-- It needs no value; without one it is set to true. -/
  isSwitch : Bool := false
  set : Text → Options → Except Text Options

namespace Flag

def shown (f : Flag) : Text :=
  match f.letter with
  | some c => "-" ++ [c] ++ ", --" ++ f.name
  | none => "--" ++ f.name

def truth? (t : Text) : Option Bool :=
  if (["1", "t", "T", "TRUE", "true", "True"] : List Text).contains t then
    some true
  else if (["0", "f", "F", "FALSE", "false", "False"] : List Text).contains t
    then some false
  else none

def switch (name : Text) (set : Bool → Options → Options)
    (letter : Option UInt8 := none) : Flag where
  name := name
  letter := letter
  isSwitch := true
  set t o :=
    match truth? t with
    | some b => .ok (set b o)
    | none =>
      .error ("strconv.ParseBool: parsing " ++ t.quoted ++ ": invalid syntax")

def text (name : Text) (set : Text → Options → Options)
    (letter : Option UInt8 := none) : Flag where
  name := name
  letter := letter
  set t o := .ok (set t o)

def integer (name : Text) (set : Int → Options → Options) : Flag where
  name := name
  set t o :=
    match Literal.integer t with
    | .ok n => .ok (set n o)
    | .error e =>
      .error ("strconv.ParseInt: parsing " ++ t.quoted ++ ": " ++ (match e with
      | .malformed => ("invalid syntax" : Text)
      | .outOfRange => "value out of range"))

/-- A flag with a list of texts, which grows every time the flag is given. -/
def texts (name : Text) (extend : List Text → Options → Options) : Flag where
  name := name
  set t o :=
    if t.isEmpty then .ok (extend [] o)
    else
      match Csv.record t with
      | .ok ts => .ok (extend ts o)
      | .error e => .error e.message

def help : Flag :=
  switch "help" (fun b o => { o with help := b }) (some 0x68)

def version : Flag :=
  switch "version" (fun b o => { o with version := b }) (some 0x76)

def shared : List Flag := [
  text "color" fun t o => { o with colour := t },
  switch "quiet" fun b o => { o with quiet := b },
  switch "timings" fun b o => { o with timings := b },
  integer "max-diagnostics" fun n o => { o with limit := n },
  text "trace" fun t o => { o with trace := t },
  text "trace-level" fun t o => { o with traceLevel := t },
  text "trace-mode" fun t o => { o with traceMode := t },
  text "trace-format" fun t o => { o with traceFormat := t },
  integer "trace-ring-size" fun n o => { o with traceRing := n },
  text "cpuprofile" fun t o => { o with processorProfile := t },
  text "memprofile" fun t o => { o with memoryProfile := t },
  text "runtime-trace" fun t o => { o with executionTrace := t }]

/-- The flags of the commands that compile a corpus. They take precedence over
its manifest. -/
def compiling : List Flag := [
  integer "jobs" fun n o => { o with jobs := some n },
  text "import-base" fun t o => { o with importBase := some t },
  texts "include" fun ts o => { o with
      patterns := some (o.patterns.getD [] ++ ts) },
  text "root-prefix" fun t o => { o with rootStart := some t },
  text "root-alias" fun t o => { o with rootAlias := some t },
  text "root-protocol" fun t o => { o with rootProtocol := some t },
  switch "no-cache" fun b o => { o with noCache := b },
  text "cache-dir" fun t o => { o with cacheDir := t }]

def format : Flag :=
  text "format" fun t o => { o with format := some t }

end Flag

end CommandLine

end ProtocolCorpus
