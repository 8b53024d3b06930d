import ProtocolCorpus.CommandLine.Options
import ProtocolCorpus.Text.Distance

/-!
# Arguments

The arguments of the program name a command, flags and operands in any order.
The command is found first; then the arguments are read with the flags that it
knows.
-/

namespace ProtocolCorpus

namespace CommandLine

inductive Command
  | check
  | ir
  | registry
  | version
  | help
  | completion
  deriving DecidableEq, Repr

inductive ArgumentError
  | unknownCommand (word command : Text) (suggestions : List Text)
  | tooManyOperands (limit count : Nat)
  | badForm (argument : Text)
  | unknownFlag (name : Text)
  | unknownLetter (letter : UInt8) (letters : Text)
  | missingValue (name : Text)
  | missingLetterValue (letter : UInt8) (letters : Text)
  | invalidValue (flag value cause : Text)
  deriving DecidableEq, Repr

inductive Request
  | showHelp
  | showVersion
  | run (command : Command) (options : Options) (operands : List Text)
  deriving DecidableEq, Repr

def programName : Text := "wlbind"

namespace ArgumentError

/-- A letter between single quotes. A byte that is no character of its own is
shown as the first byte of its two-byte form. -/
def quotedLetter (b : UInt8) : Text :=
  let n := if b < 0x80 then b.toNat else if b < 0xC0 then 0xC2 else 0xC3
  "'" ++ (if n = 0x22 then ("\"" : Text) else if n = 0x27 then "\\'"
    else Scalar.quoted (.char (Char.ofNat n))) ++ "'"

def message : ArgumentError → Text
  | .unknownCommand word command suggestions =>
    "unknown command " ++ word.quoted ++ " for " ++ command.quoted
      ++ (if suggestions.isEmpty then []
          else "\n\nDid you mean this?\n" ++ suggestions.flatMap fun s =>
            "\t" ++ s ++ "\n")
  | .tooManyOperands limit count =>
    "accepts at most " ++ Text.ofNat limit ++ " arg(s), received " ++
      Text.ofNat count
  | .badForm s => "bad flag syntax: " ++ s
  | .unknownFlag name => "unknown flag: --" ++ name
  | .unknownLetter c letters =>
    "unknown shorthand flag: " ++ quotedLetter c ++ " in -" ++ letters
  | .missingValue name => "flag needs an argument: --" ++ name
  | .missingLetterValue c letters =>
    "flag needs an argument: " ++ quotedLetter c ++ " in -" ++ letters
  | .invalidValue flag value cause =>
    "invalid argument " ++ value.quoted ++ " for " ++ flag.quoted ++
      " flag: " ++ cause

end ArgumentError

namespace Command

def all : List Command := [check, ir, registry, version, help, completion]

def name : Command → Text
  | check => "check"
  | ir => "ir"
  | registry => "registry"
  | version => "version"
  | help => "help"
  | completion => "completion"

def summary : Command → Text
  | check => "Compile a protocol corpus and report diagnostics"
  | ir => "Compile a protocol corpus and dump its IR"
  | registry => "Show interface owners and document aliases of a corpus"
  | version => "Show wlbind build information"
  | help => "Help about any command"
  | completion => "Generate the autocompletion script for the specified shell"

def named? (word : Text) : Option Command :=
  all.find? fun c => c.name == word

/-- The flags of a command besides those that all share. -/
def ownFlags : Command → List Flag
  | check => [
    Flag.format,
    .text "path-mode" fun t o => { o with pathMode := t },
    .switch "with-notes" fun b o => { o with withNotes := b },
    .text "min-severity" fun t o => { o with leastSeverity := t },
    .switch "warnings-as-errors" fun b o => { o with warningsAsErrors := b }] ++
    Flag.compiling
  | ir => [
    Flag.format,
    .text "output" (fun t o => { o with output := t }) (some 0x6F),
    .texts "document" fun ts o => { o with chosen := o.chosen ++ ts }] ++
    Flag.compiling
  | registry => [
    .switch "documents" fun b o => { o with listDocuments := b },
    .text "interface" fun t o => { o with interfaceStart := t }] ++
    Flag.compiling
  | version => [Flag.format]
  | help => []
  | completion => []

/-- A word is close to the name of a command: few bytes differ, or the name
starts with it. -/
def isCloseTo (word : Text) (c : Command) : Bool :=
  Text.distance word.lower c.name ≤ 2 || Text.startsWith c.name word.lower

/-- The commands that may have been meant by a word. -/
def suggestions (word : Text) : List Text :=
  (all.filter fun c => c != help && c.isCloseTo word).map name

end Command

namespace Arguments

def isWord (s : Text) : Bool :=
  match s with
  | [] => false
  | b :: _ => b != 0x2D

def flag? (flags : List Flag) (name : Text) : Option Flag :=
  flags.find? fun f => f.name == name

def lettered? (flags : List Flag) (letter : UInt8) : Option Flag :=
  flags.find? fun f => f.letter == some letter

/-- The argument looks like a flag whose value is the next argument. What is not
known is taken for one. -/
def takesNext (flags : List Flag) (s : Text) : Bool :=
  let isSwitch (f : Option Flag) := (f.map Flag.isSwitch).getD false
  match s with
  | 0x2D :: 0x2D :: name =>
    !List.contains name 0x3D && !isSwitch (flag? flags name)
  | [0x2D, letter] => letter != 0x3D && !isSwitch (lettered? flags letter)
  | _ => false

/-- The words among arguments, without the values of flags. -/
def words (flags : List Flag) : List Text → List Text
  | [] => []
  | [s] => if isWord s then [s] else []
  | s :: v :: rest =>
    if s == "--" then []
    else if takesNext flags s then words flags rest
    else if isWord s then s :: words flags (v :: rest)
    else words flags (v :: rest)

/-- The arguments without the first place where a word stands for itself. -/
def without (flags : List Flag) (word : Text) : List Text → List Text
  | [] => []
  | [s] => if s == word then [] else [s]
  | s :: v :: rest =>
    if s == "--" then s :: v :: rest
    else if takesNext flags s then s :: v :: without flags word rest
    else if s == word then v :: rest
    else s :: without flags word (v :: rest)

def set (f : Flag) (value : Text)
    (o : Options) : Except ArgumentError Options :=
  (f.set value o).mapError (.invalidValue f.shown value)

/-- Read a flag by its name. The answer says if the next argument was used. -/
def readLong (flags : List Flag) (s name : Text) (next : Option Text)
    (o : Options) :
    Except ArgumentError (Options × Bool) :=
  if name.head? == some 0x2D || name.head? == some 0x3D then .error (.badForm s)
  else
    let (name, value?) := match Text.cut 0x3D name with
      | some (name, value) => (name, some value)
      | none => (name, none)
    match flag? flags name with
    | none => .error (.unknownFlag name)
    | some f =>
      match value?, next with
      | some value, _ => (set f value o).map (·, false)
      | none, some value =>
        if f.isSwitch then (set f "true" o).map (·, false)
        else (set f value o).map (·, true)
      | none, none =>
        if f.isSwitch then (set f "true" o).map (·, false)
        else .error (.missingValue name)

/-- Read flags by their letters; a value stands behind its letter or in the next
argument. Letters that start with `test.` are passed over. -/
def readLetters (flags : List Flag) (next : Option Text) (o : Options) :
    Text → Except ArgumentError (Options × Bool)
  | [] => .ok (o, false)
  | c :: rest =>
    if Text.startsWith (c :: rest) "test." then .ok (o, false)
    else
      match lettered? flags c with
      | none => .error (.unknownLetter c (c :: rest))
      | some f =>
        if 2 ≤ rest.length && rest.head? == some 0x3D then
          (set f (rest.drop 1) o).map (·, false)
        else if f.isSwitch then
          match set f "true" o with
          | .error e => .error e
          | .ok o => readLetters flags next o rest
        else if !rest.isEmpty then (set f rest o).map (·, false)
        else
          match next with
          | some value => (set f value o).map (·, true)
          | none => .error (.missingLetterValue c (c :: rest))

def readFlag (flags : List Flag) (s : Text) (next : Option Text) (o : Options) :
    Except ArgumentError (Options × Bool) :=
  match s with
  | 0x2D :: 0x2D :: name => readLong flags s name next o
  | _ => readLetters flags next o (s.drop 1)

/-- Read all arguments: the options, and the operands in their order. A lone
dash is an operand, and so is everything behind a double dash. -/
def read (flags : List Flag) (o : Options) (operands : List Text) :
    List Text → Except ArgumentError (Options × List Text)
  | [] => .ok (o, operands)
  | s :: rest =>
    if s == "--" then .ok (o, operands ++ rest)
    else if !isWord s && 2 ≤ s.length then
      match readFlag flags s rest.head? o with
      | .error e => .error e
      | .ok (o, usesNext) =>
        match rest, usesNext with
        | _ :: rest, true => read flags o operands rest
        | rest, _ => read flags o operands rest
    else read flags o (operands ++ [s]) rest
termination_by args => args.length

def findCommand (args : List Text) :
    Except ArgumentError (Option Command × List Text) :=
  match words Flag.shared args with
  | [] => .ok (none, args)
  | word :: _ =>
    match Command.named? word with
    | some c => .ok (some c, without Flag.shared word args)
    | none =>
      .error (.unknownCommand word programName (Command.suggestions word))

def restrict (c : Command) (operands : List Text) : Except ArgumentError Unit :=
  match c with
  | .check | .ir | .registry =>
    if operands.length ≤ 1 then .ok ()
    else .error (.tooManyOperands 1 operands.length)
  | .version =>
    match operands with
    | [] => .ok ()
    | word :: _ =>
      .error (.unknownCommand word (programName ++ " " ++ c.name) [])
  | .help | .completion => .ok ()

/-- What the arguments of the program ask for. Without a command it is help or
the version. -/
def request (args : List Text) : Except ArgumentError Request := do
  let (command?, args) ← findCommand args
  match command? with
  | none =>
    let (o, _) ← read (Flag.shared ++ [Flag.help, Flag.version]) {} [] args
    return if o.version && !o.help then .showVersion else .showHelp
  | some c =>
    let (o, operands) ← read (Flag.shared ++ c.ownFlags ++ [Flag.help]) {}
      [] args
    if o.help || c = .help || c = .completion then return .showHelp
    restrict c operands
    return .run c o operands

end Arguments

end CommandLine

end ProtocolCorpus
