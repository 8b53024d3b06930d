import ProtocolCorpus.Data.Codec

/-!
# The interchange form of a corpus

What a compiled corpus looks like to other programs: records of texts and
numbers, with references spelled out. One description of each record says how it
is written and read in every format.
-/

namespace ProtocolCorpus

namespace Interchange

structure Reference where
  qualifier : Text := []
  name : Text := []
  target : Text := []
  deriving DecidableEq, Repr, Inhabited

structure EnumReference where
  qualifier : Text := []
  name : Text := []
  bitfield : Bool := false
  found : Bool := false
  deriving DecidableEq, Repr, Inhabited

structure Argument where
  name : Text := []
  kind : Text := []
  nullable : Bool := false
  summary : Text := []
  interface : Option Reference := none
  enum : Option EnumReference := none
  deriving DecidableEq, Repr, Inhabited

/-- A request or an event. The type index has no meaning if no slot has a type.
-/
structure Message where
  name : Text := []
  destructor : Bool := false
  since : Int := 0
  deprecatedSince : Int := 0
  summary : Text := []
  typeIndex : Int := 0
  allNull : Bool := false
  result : Option Argument := none
  args : List Argument := []
  deriving DecidableEq, Repr, Inhabited

structure Entry where
  name : Text := []
  value : UInt32 := 0
  since : Int := 0
  summary : Text := []
  deriving DecidableEq, Repr, Inhabited

structure Enumeration where
  name : Text := []
  bitfield : Bool := false
  since : Int := 0
  entries : Option (List Entry) := none
  deriving DecidableEq, Repr, Inhabited

structure Interface where
  name : Text := []
  shortName : Text := []
  version : Int := 0
  summary : Text := []
  enums : List Enumeration := []
  requests : List Message := []
  events : List Message := []
  deriving DecidableEq, Repr, Inhabited

structure Import where
  aliasName : Text := []
  document : Text := []
  importPath : Text := []
  relativePath : Text := []
  deriving DecidableEq, Repr, Inhabited

structure Document where
  path : Text := []
  importPath : Text := []
  protocol : Text := []
  module : Text := []
  aliasName : Text := []
  root : Bool := false
  hash : Text := []
  imports : List Import := []
  copyright : Text := []
  summary : Text := []
  nullRun : Int := 0
  typeTable : Option (List Text) := none
  interfaces : Option (List Interface) := none
  deriving DecidableEq, Repr, Inhabited

/-- A corpus: its documents, and the order in which code for them can be
emitted. -/
structure Corpus where
  schema : Int := 0
  emitOrder : Option (List Text) := none
  documents : Option (List Document) := none
  deriving DecidableEq, Repr, Inhabited

def Reference.codec : Codec Reference :=
  .record {} [
    .text "qualifier" (·.qualifier) fun v s => { s with qualifier := v },
    .always "name" .text (·.name) fun v s => { s with name := v },
    .always "target" .text (·.target) fun v s => { s with target := v }]

def EnumReference.codec : Codec EnumReference :=
  .record {} [
    .text "qualifier" (·.qualifier) fun v s => { s with qualifier := v },
    .always "name" .text (·.name) fun v s => { s with name := v },
    .flag "bitfield" (·.bitfield) fun v s => { s with bitfield := v },
    .always "found" .bool (·.found) fun v s => { s with found := v }]

def Argument.codec : Codec Argument :=
  .record {} [
    .always "name" .text (·.name) fun v s => { s with name := v },
    .always "kind" .text (·.kind) fun v s => { s with kind := v },
    .flag "nullable" (·.nullable) fun v s => { s with nullable := v },
    .text "summary" (·.summary) fun v s => { s with summary := v },
    .optional "interface" Reference.codec (·.interface) fun v s =>
      { s with interface := v },
    .optional "enum" EnumReference.codec (·.enum) fun v s =>
      { s with enum := v }]

def Message.codec : Codec Message :=
  .record {} [
    .always "name" .text (·.name) fun v s => { s with name := v },
    .flag "destructor" (·.destructor) fun v s => { s with destructor := v },
    .int "since" (·.since) fun v s => { s with since := v },
    .int "deprecated_since" (·.deprecatedSince) fun v s =>
      { s with deprecatedSince := v },
    .text "summary" (·.summary) fun v s => { s with summary := v },
    .always "type_index" .int (·.typeIndex) fun v s =>
      { s with typeIndex := v },
    .flag "all_null" (·.allNull) fun v s => { s with allNull := v },
    .optional "return" Argument.codec (·.result) fun v s =>
      { s with result := v },
    .list "args" Argument.codec (·.args) fun v s => { s with args := v }]

def Entry.codec : Codec Entry :=
  .record {} [
    .always "name" .text (·.name) fun v s => { s with name := v },
    .always "value" .word (·.value) fun v s => { s with value := v },
    .int "since" (·.since) fun v s => { s with since := v },
    .text "summary" (·.summary) fun v s => { s with summary := v }]

def Enumeration.codec : Codec Enumeration :=
  .record {} [
    .always "name" .text (·.name) fun v s => { s with name := v },
    .flag "bitfield" (·.bitfield) fun v s => { s with bitfield := v },
    .int "since" (·.since) fun v s => { s with since := v },
    .always "entries" (.absentOr Entry.codec) (·.entries) fun v s =>
      { s with entries := v }]

def Interface.codec : Codec Interface :=
  .record {} [
    .always "name" .text (·.name) fun v s => { s with name := v },
    .always "short_name" .text (·.shortName) fun v s =>
      { s with shortName := v },
    .always "version" .int (·.version) fun v s => { s with version := v },
    .text "summary" (·.summary) fun v s => { s with summary := v },
    .list "enums" Enumeration.codec (·.enums) fun v s => { s with enums := v },
    .list "requests" Message.codec (·.requests) fun v s =>
      { s with requests := v },
    .list "events" Message.codec (·.events) fun v s => { s with events := v }]

def Import.codec : Codec Import :=
  .record {} [
    .always "alias" .text (·.aliasName) fun v s => { s with aliasName := v },
    .always "document" .text (·.document) fun v s => { s with document := v },
    .always "import_path" .text (·.importPath) fun v s =>
      { s with importPath := v },
    .always "rel_path" .text (·.relativePath) fun v s =>
      { s with relativePath := v }]

def Document.codec : Codec Document :=
  .record {} [
    .always "path" .text (·.path) fun v s => { s with path := v },
    .always "import_path" .text (·.importPath) fun v s =>
      { s with importPath := v },
    .always "protocol" .text (·.protocol) fun v s => { s with protocol := v },
    .always "module" .text (·.module) fun v s => { s with module := v },
    .always "alias" .text (·.aliasName) fun v s => { s with aliasName := v },
    .flag "root" (·.root) fun v s => { s with root := v },
    .text "hash" (·.hash) fun v s => { s with hash := v },
    .list "imports" Import.codec (·.imports) fun v s => { s with imports := v },
    .text "copyright" (·.copyright) fun v s => { s with copyright := v },
    .text "summary" (·.summary) fun v s => { s with summary := v },
    .always "null_run_length" .int (·.nullRun) fun v s =>
      { s with nullRun := v },
    .always "type_table" (.absentOr .text) (·.typeTable) fun v s =>
      { s with typeTable := v },
    .always "interfaces" (.absentOr Interface.codec) (·.interfaces) fun v s =>
      { s with interfaces := v }]

def Corpus.codec : Codec Corpus :=
  .record {} [
    .always "schema" .int (·.schema) fun v s => { s with schema := v },
    .always "emit_order" (.absentOr .text) (·.emitOrder) fun v s =>
      { s with emitOrder := v },
    .always "documents" (.absentOr Document.codec) (·.documents) fun v s =>
      { s with documents := v }]

def schemaVersion : Int := 1

end Interchange

end ProtocolCorpus
