import ProtocolCorpus.Interchange.Basic
import ProtocolCorpus.Json.Parser
import ProtocolCorpus.Json.Printer
import ProtocolCorpus.MessagePack.Parser
import ProtocolCorpus.MessagePack.Printer
import ProtocolCorpus.Text.Quoted
import ProtocolCorpus.Yaml.Parser
import ProtocolCorpus.Yaml.Printer

/-!
# Formats of the interchange form

A corpus is written as JSON, YAML or MessagePack and read back from any of them.
-/

namespace ProtocolCorpus

namespace Interchange

inductive Format
  | json
  | yaml
  | messagePack
  deriving DecidableEq, Repr, Inhabited

namespace Format

def name : Format → Text
  | .json => "json"
  | .yaml => "yaml"
  | .messagePack => "msgpack"

def ofNumber? : Nat → Option Format
  | 0 => some .json
  | 1 => some .yaml
  | 2 => some .messagePack
  | _ => none

def number : Format → Nat
  | .json => 0
  | .yaml => 1
  | .messagePack => 2

def parse? (t : Text) : Option Format :=
  if t.isEmpty || t == "json" then some .json
  else if t == "yaml" || t == "yml" then some .yaml
  else if t == "msgpack" || t == "mp" then some .messagePack
  else none

def unknownName (t : Text) : Text :=
  "unknown IR format " ++ t.quoted

def unknownNumber (n : Nat) : Text :=
  "unknown IR format " ++ Text.ofNat n

def render : Format → Tree → Text
  | .json => Json.document
  | .yaml => Yaml.document
  | .messagePack => MessagePack.render

def parseDatum? : Format → Text → Option Datum
  | .json, t => Json.parse? t
  | .yaml, t => (Yaml.parse? t).map Yaml.Node.datum
  | .messagePack, t => MessagePack.parse? t

def conventions : Format → Conventions
  | .json => Json.conventions
  | .yaml => Yaml.conventions
  | .messagePack => MessagePack.conventions

end Format

inductive ReadError
  | malformed (f : Format)
  | wrongSchema (found : Int)
  deriving DecidableEq, Repr

def ReadError.message : ReadError → Text
  | .malformed f => "decode " ++ f.name ++ " IR"
  | .wrongSchema n =>
  "IR schema " ++ Text.ofInt n ++ ", want " ++ Text.ofInt schemaVersion

namespace Corpus

def write (f : Format) (c : Corpus) : Text :=
  f.render (codec.write c)

def read (f : Format) (t : Text) : Except ReadError Corpus :=
  match (f.parseDatum? t).bind fun d => codec.read f.conventions d {} with
  | none => .error (.malformed f)
  | some c =>
    if c.schema = schemaVersion then .ok c else .error (.wrongSchema c.schema)

end Corpus

end Interchange

end ProtocolCorpus
