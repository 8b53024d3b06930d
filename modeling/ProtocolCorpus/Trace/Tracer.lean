import ProtocolCorpus.FileSystem
import ProtocolCorpus.Trace.Event
import ProtocolCorpus.Trace.Ring

/-!
# Tracers

A tracer numbers the events of a run, writes those of its level and keeps the
latest ones of all scopes in a ring. A span can still get remarks after its end;
a dump shows them as they are by then.
-/

namespace ProtocolCorpus

namespace Trace

/-- An event as it is kept: the remarks of a span are looked up when they are
shown. -/
structure Entry where
  event : Event := {}
  /-- The span whose remarks the event shows. -/
  remarksOf : Option Nat := none
  deriving Inhabited

structure Span where
  name : Text
  scope : Scope
  parent : UInt64
  remarks : Remarks := []
  deriving Inhabited

/-- Where written events go, how often that was flushed and closed, and what
goes wrong with that. -/
structure Sink where
  flushError : Option Text := none
  closeError : Option Text := none
  flushes : Nat := 0
  closes : Nat := 0

structure Config where
  level : Level := .off
  mode : Option Mode := none
  format : Format := .auto
  path : Text := []
  ring : Int := 0
  sink : Sink := {}

structure Tracer where
  level : Level := .off
  stream : Option Format := none
  ring : Option (Ring Entry) := none
  /-- The spans that have begun; the first has number one. -/
  spans : Array Span := #[]
  count : Nat := 0
  /-- The present time in microseconds. -/
  now : Int := 0
  written : Array Text := #[]
  sink : Sink := {}

namespace Config

/-- Events are written, so their file has to be opened. -/
def streams (c : Config) : Bool :=
  c.level.isEnabled && (c.mode.map Mode.streams).getD false

/-- Events are written to a file of their own, not among the messages of the
program. -/
def usesFile (c : Config) : Bool :=
  c.streams && !c.path.isEmpty && c.path != "-"

def openOutput (c : Config) (fs : FileSystem) : Except FileError FileSystem :=
  if c.usesFile then
    (fs.create c.path []).mapError fun e =>
      { e with message := "failed to open trace output: " ++ e.message }
  else .ok fs

def tracer (c : Config) : Except Text Tracer :=
  if !c.level.isEnabled then .ok {}
  else
    match c.mode with
    | none => .error "unknown storage mode: unknown"
    | some m => .ok {
        level := c.level
        stream := if m.streams then some (c.format.forPath c.path) else none
        ring := if m.keeps then some (.new c.ring) else none
        sink := c.sink }

end Config

namespace Tracer

def isEnabled (t : Tracer) : Bool :=
  t.level.isEnabled

def event (t : Tracer) (e : Entry) : Event :=
  match e.remarksOf with
  | none => e.event
  | some i => { e.event with remarks := (t.spans[i]?.map Span.remarks).getD [] }

def emit (t : Tracer) (e : Entry) : Tracer :=
  let lines := match t.stream with
    | some f =>
      if t.level.emits e.event.scope then #[(t.event e).render f] else #[]
    | none => #[]
  { t with written := t.written ++ lines, ring := t.ring.map fun r => r.push e }

def emitNext (t : Tracer) (e : Event) (remarksOf : Option Nat) : Tracer :=
  emit { t with count := t.count + 1 } {
    event := { e with
        time := t.now, number := UInt64.ofNat (t.count + 1), worker := 1 }
    remarksOf }

/-- A span begins; the answer has its number, or zero if nothing is traced. -/
def start (t : Tracer) (scope : Scope) (name : Text)
    (parent : UInt64) : Tracer × UInt64 :=
  if t.isEnabled then
    let id := UInt64.ofNat (t.spans.size + 1)
    let t := { t with spans := t.spans.push { name, scope, parent } }
    (t.emitNext { kind := .start, scope, span := id, parent, name } none, id)
  else (t, 0)

def remark (t : Tracer) (span : UInt64) (key value : Text) : Tracer :=
  { t with spans := t.spans.modify (span.toNat - 1) fun s => { s with
      remarks := s.remarks.put key value } }

def finish (t : Tracer) (span : UInt64) (detail : Text) : Tracer :=
  match t.spans[span.toNat - 1]? with
  | none => t
  | some s =>
    t.emitNext
      { kind := .finish, scope := s.scope, span, parent := s.parent,
        name := s.name, detail }
      (if s.remarks.isEmpty then none else some (span.toNat - 1))

def point (t : Tracer) (scope : Scope) (name detail : Text)
    (parent : UInt64) : Tracer :=
  if t.isEnabled then
    t.emitNext { kind := .point, scope, parent, name, detail } none
  else t

def output (t : Tracer) : Text :=
  t.written.toList.flatten

/-- The kept events in a format, the oldest first. -/
def dump (t : Tracer) (f : Format) : Option Text :=
  t.ring.map fun r => r.toList.flatMap fun e => (t.event e).render f

def flush (t : Tracer) : Tracer × Option Text :=
  if t.stream.isSome then
    ({ t with sink := { t.sink with flushes := t.sink.flushes + 1 } },
      t.sink.flushError)
  else (t, none)

/-- The tracer is closed; not so if what was written cannot be passed on. -/
def close (t : Tracer) : Tracer × Option Text :=
  if t.stream.isSome then
    let (t, error) := t.flush
    match error with
    | some e => (t, some e)
    | none =>
      ({ t with sink := { t.sink with closes := t.sink.closes + 1 } },
        t.sink.closeError)
  else (t, none)

end Tracer

end Trace

end ProtocolCorpus
