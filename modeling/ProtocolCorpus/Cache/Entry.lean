import ProtocolCorpus.ImportGraph.Basic
import ProtocolCorpus.MessagePack.Parser
import ProtocolCorpus.MessagePack.Printer
import ProtocolCorpus.Resolution.Pass

/-!
# Entries of the cache

An entry holds everything a finished compilation has found out about a corpus,
apart from the registry, which is quickly made from the documents. One
description of each record says how it is written and read.
-/

namespace ProtocolCorpus

structure CacheEntry where
  documents : List Document := []
  resolutions : List ResolvedImports := []
  graph : List GraphDocument := []
  emission : List Text := []
  diagnostics : List Diagnostic := []
  deriving DecidableEq, Repr, Inhabited

def Span.codec : Codec Span :=
  .record {} [
    .always "File" .word (·.file) fun v s => { s with file := v },
    .always "Start" .word (·.start) fun v s => { s with start := v },
    .always "End" .word (·.stop) fun v s => { s with stop := v }]

def Reference.codec : Codec Reference :=
  .record {} [
    .always "Qualifier" .text (·.qualifier) fun v s =>
      { s with qualifier := v },
    .always "Name" .text (·.name) fun v s => { s with name := v },
    .always "Target" .text (·.target) fun v s => { s with target := v }]

def EnumReference.codec : Codec EnumReference :=
  .record {} [
    .always "Ref" Reference.codec (·.toReference) fun v s =>
      { s with toReference := v },
    .always "Bitfield" .bool (·.bitfield) fun v s => { s with bitfield := v },
    .always "Found" .bool (·.found) fun v s => { s with found := v }]

def Description.codec : Codec Description :=
  .record {} [
    .always "Summary" .text (·.summary) fun v s => { s with summary := v },
    .always "Text" .text (·.text) fun v s => { s with text := v }]

def Argument.codec : Codec Argument :=
  .record {} [
    .always "Name" .text (·.name) fun v s => { s with name := v },
    .always "Kind" (.via .nat ArgumentKind.number .ofNumber) (·.kind) fun v s =>
      { s with kind := v },
    .always "Nullable" .bool (·.nullable) fun v s => { s with nullable := v },
    .always "Summary" .text (·.summary) fun v s => { s with summary := v },
    .always "Interface" .text (·.interface) fun v s =>
      { s with interface := v },
    .always "Enum" .text (·.enum) fun v s => { s with enum := v },
    .always "Span" Span.codec (·.span) fun v s => { s with span := v },
    .always "ResolvedInterface" (.optional Reference.codec)
    (·.resolvedInterface)
      fun v s => { s with resolvedInterface := v },
    .always "ResolvedEnum" (.optional EnumReference.codec) (·.resolvedEnum)
      fun v s => { s with resolvedEnum := v }]

def Placement.codec : Codec Placement :=
  .record {} [
    .always "AllNull" .bool (·.allNull) fun v s => { s with allNull := v },
    .always "TypeIndex" .nat (·.typeIndex) fun v s => { s with typeIndex := v },
    .always "Slots" (.list (.optional Reference.codec)) (·.slots) fun v s =>
      { s with slots := v }]

def MessageKind.codec : Codec MessageKind :=
  .via .bool (· == .event) fun b => if b then .event else .request

def Message.codec : Codec Message :=
  .record {} [
    .always "Name" .text (·.name) fun v s => { s with name := v },
    .always "Event" MessageKind.codec (·.kind) fun v s => { s with kind := v },
    .always "Destructor" .bool (·.destructor) fun v s =>
      { s with destructor := v },
    .always "Since" .int (·.since) fun v s => { s with since := v },
    .always "DeprecatedSince" .int (·.deprecatedSince) fun v s =>
      { s with deprecatedSince := v },
    .always "Description" Description.codec (·.description) fun v s =>
      { s with description := v },
    .always "Args" (.list Argument.codec) (·.args) fun v s =>
      { s with args := v },
    .always "Return" (.optional Argument.codec) (·.result) fun v s =>
      { s with result := v },
    .always "ReturnIndex" .int (·.resultIndex) fun v s =>
      { s with resultIndex := v },
    .always "Generic" (.optional Argument.codec) (·.generic) fun v s =>
      { s with generic := v },
    .always "Span" Span.codec (·.span) fun v s => { s with span := v },
    .always "Normalized" .bool (·.normalized) fun v s =>
      { s with normalized := v },
    .always "Layout" Placement.codec (·.placement) fun v s =>
      { s with placement := v }]

def Entry.codec : Codec Entry :=
  .record {} [
    .always "Name" .text (·.name) fun v s => { s with name := v },
    .always "Value" .word (·.value) fun v s => { s with value := v },
    .always "Since" .int (·.since) fun v s => { s with since := v },
    .always "Summary" .text (·.summary) fun v s => { s with summary := v }]

def Enumeration.codec : Codec Enumeration :=
  .record {} [
    .always "Name" .text (·.name) fun v s => { s with name := v },
    .always "Bitfield" .bool (·.bitfield) fun v s => { s with bitfield := v },
    .always "Since" .int (·.since) fun v s => { s with since := v },
    .always "Description" Description.codec (·.description) fun v s =>
      { s with description := v },
    .always "Entries" (.list Entry.codec) (·.entries) fun v s =>
      { s with entries := v },
    .always "Span" Span.codec (·.span) fun v s => { s with span := v }]

def Interface.codec : Codec Interface :=
  .record {} [
    .always "Name" .text (·.name) fun v s => { s with name := v },
    .always "Version" .int (·.version) fun v s => { s with version := v },
    .always "Description" Description.codec (·.description) fun v s =>
      { s with description := v },
    .always "Enums" (.list Enumeration.codec) (·.enums) fun v s =>
      { s with enums := v },
    .always "Requests" (.list Message.codec) (·.requests) fun v s =>
      { s with requests := v },
    .always "Events" (.list Message.codec) (·.events) fun v s =>
      { s with events := v },
    .always "Span" Span.codec (·.span) fun v s => { s with span := v }]

def Protocol.codec : Codec Protocol :=
  .record {} [
    .always "Name" .text (·.name) fun v s => { s with name := v },
    .always "Copyright" .text (·.copyright) fun v s =>
      { s with copyright := v },
    .always "Description" Description.codec (·.description) fun v s =>
      { s with description := v },
    .always "Interfaces" (.list Interface.codec) (·.interfaces) fun v s =>
      { s with interfaces := v },
    .always "Span" Span.codec (·.span) fun v s => { s with span := v },
    .always "NullRun" .nat (·.nullRun) fun v s => { s with nullRun := v },
    .always "TypeTable" (.list (.optional Reference.codec)) (·.typeTable)
      fun v s => { s with typeTable := v }]

def Import.codec : Codec Import :=
  .record {} [
    .always "Name" .text (·.name) fun v s => { s with name := v },
    .always "Span" Span.codec (·.span) fun v s => { s with span := v }]

def Document.codec : Codec Document :=
  .record {} [
    .always "Path" .text (·.path) fun v s => { s with path := v },
    .always "ImportPath" .text (·.importPath) fun v s =>
      { s with importPath := v },
    .always "File" .word (·.file) fun v s => { s with file := v },
    .always "Imports" (.list Import.codec) (·.imports) fun v s =>
      { s with imports := v },
    .always "Protocol" (.optional Protocol.codec) (·.protocol) fun v s =>
      { s with protocol := v }]

def ImportEdge.codec : Codec ImportEdge :=
  .record default [
    .always "Alias" .text (·.aliasName) fun v s => { s with aliasName := v },
    .always "Document" .text (·.document) fun v s => { s with document := v },
    .always "ImportPath" .text (·.importPath) fun v s =>
      { s with importPath := v },
    .always "RelPath" .text (·.relativePath) fun v s =>
      { s with relativePath := v }]

def ResolvedImports.codec : Codec ResolvedImports :=
  .record default [
    .always "Document" .text (·.document) fun v s => { s with document := v },
    .always "Alias" .text (·.aliasName) fun v s => { s with aliasName := v },
    .always "ImportPath" .text (·.importPath) fun v s =>
      { s with importPath := v },
    .always "Imports" (.list ImportEdge.codec) (·.imports) fun v s =>
      { s with imports := v }]

def ImportTarget.codec : Codec ImportTarget :=
  .record default [
    .always "Path" .text (·.path) fun v s => { s with path := v },
    .always "Alias" .text (·.aliasName) fun v s => { s with aliasName := v }]

def GraphDocument.codec : Codec GraphDocument :=
  .record {} [
    .always "Path" .text (·.path) fun v s => { s with path := v },
    .always "ImportPath" .text (·.importPath) fun v s =>
      { s with importPath := v },
    .always "Protocol" .text (·.protocol) fun v s => { s with protocol := v },
    .always "File" .word (·.file) fun v s => { s with file := v },
    .always "Span" Span.codec (·.span) fun v s => { s with span := v },
    .always "Imports" (.list ImportTarget.codec) (·.imports) fun v s =>
      { s with imports := v },
    .always "ContentHash" .text (·.contentDigest) fun v s =>
      { s with contentDigest := v },
    .always "DocHash" .text (·.digest) fun v s => { s with digest := v }]

def Coordinates.codec : Codec Coordinates :=
  .record {} [
    .always "Protocol" .text (·.protocol) fun v s => { s with protocol := v },
    .always "Interface" .text (·.interface) fun v s =>
      { s with interface := v },
    .always "Message" .text (·.message) fun v s => { s with message := v },
    .always "Argument" .text (·.argument) fun v s => { s with argument := v }]

def Candidate.codec : Codec Candidate :=
  .record {} [
    .always "Protocol" .text (·.protocol) fun v s => { s with protocol := v },
    .always "Module" .text (·.module) fun v s => { s with module := v },
    .always "ImportPath" .text (·.importPath) fun v s =>
      { s with importPath := v },
    .always "Source" .text (·.source) fun v s => { s with source := v }]

def Note.codec : Codec Note :=
  .record {} [
    .always "Span" Span.codec (·.span) fun v s => { s with span := v },
    .always "Msg" .text (·.message) fun v s => { s with message := v }]

def Diagnostic.codec : Codec Diagnostic :=
  .record {} [
    .always "Severity" (.via .nat (·.level.toNat) fun n => ⟨UInt8.ofNat n⟩)
    (·.severity)
      fun v s => { s with severity := v },
    .always "Code" (.via .nat (·.number.toNat) fun n => ⟨UInt16.ofNat n⟩)
    (·.code)
      fun v s => { s with code := v },
    .always "Message" .text (·.message) fun v s => { s with message := v },
    .always "Primary" Span.codec (·.span) fun v s => { s with span := v },
    .always "Where" Coordinates.codec (·.coordinates) fun v s =>
      { s with coordinates := v },
    .always "Candidates" (.list Candidate.codec) (·.candidates) fun v s =>
      { s with candidates := v },
    .always "Notes" (.list Note.codec) (·.notes) fun v s =>
      { s with notes := v }]

namespace CacheEntry

/-- The version of this description; entries of another version are not used. -/
def schema : UInt16 := 1

/-- An entry with the version it was written by, field by field. -/
def codec : Codec (UInt16 × CacheEntry) :=
  .record (0, {}) [
    .always "Schema" (.via .word (fun n => n.toUInt32) UInt32.toUInt16)
    (·.1) fun v s => (v, s.2),
    .always "Documents" (.list Document.codec) (·.2.documents) fun v s =>
      (s.1, { s.2 with documents := v }),
    .always "Resolutions" (.list ResolvedImports.codec) (·.2.resolutions)
      fun v s => (s.1, { s.2 with resolutions := v }),
    .always "Metas" (.list GraphDocument.codec) (·.2.graph) fun v s =>
      (s.1, { s.2 with graph := v }),
    .always "EmitOrder" (.list .text) (·.2.emission) fun v s =>
      (s.1, { s.2 with emission := v }),
    .always "Diagnostics" (.list Diagnostic.codec) (·.2.diagnostics)
      fun v s => (s.1, { s.2 with diagnostics := v })]

def encode (e : CacheEntry) : Text :=
  MessagePack.render (codec.write (schema, e))

/-- The entry that bytes stand for, with the version it was written by; nothing
if they are damaged. -/
def read? (t : Text) : Option (UInt16 × CacheEntry) := do
  let d ← MessagePack.parse? t
  codec.read MessagePack.conventions d codec.zero

/-- The entry that bytes stand for; nothing if they are damaged or of another
version. -/
def decode? (t : Text) : Option CacheEntry := do
  let (version, e) ← read? t
  if version = schema then some e else none

end CacheEntry

end ProtocolCorpus
