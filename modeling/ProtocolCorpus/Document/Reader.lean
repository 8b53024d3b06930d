import ProtocolCorpus.Document.Element
import ProtocolCorpus.Source.File

/-!
# Reading protocol documents

The element stream of a document becomes a `Document`. Every declaration is
written into the document as soon as its tag is open. The reader does not hold
the open declarations: it has a mark for the interface, message, argument,
enumeration and entry it is in, and a write at a mark that is not set, or that
points nowhere, has no result. An element that has no meaning where it stands is
reported once and passed over with everything in it.
-/

namespace ProtocolCorpus

/-! ## Parts of declarations -/

def Interface.messagesOf (i : Interface) : MessageKind → List Message
  | .request => i.requests
  | .event => i.events

def Interface.withMessages (i : Interface) (ms : List Message) : MessageKind →
    Interface
  | .request => { i with requests := ms }
  | .event => { i with events := ms }

def Protocol.addInterface (p : Protocol) (i : Interface) : Protocol :=
  { p with interfaces := p.interfaces ++ [i] }

def Interface.addMessage (i : Interface) (m : Message) : Interface :=
  i.withMessages (i.messagesOf m.kind ++ [m]) m.kind

def Interface.addEnumeration (i : Interface) (e : Enumeration) : Interface :=
  { i with enums := i.enums ++ [e] }

def Message.addArgument (m : Message) (a : Argument) : Message :=
  { m with args := m.args ++ [a] }

def Enumeration.addEntry (e : Enumeration) (x : Entry) : Enumeration :=
  { e with entries := e.entries ++ [x] }

namespace Document

/-- Change what stands at a place of a list, if something stands there. -/
def editAt? {α : Type} (n : Nat) (f : α → Option α)
    (xs : List α) : Option (List α) := do
  let x ← xs[n]?
  let y ← f x
  some (xs.set n y)

def atInterface (n : Nat) (f : Interface → Option Interface)
    (p : Protocol) : Option Protocol :=
  (editAt? n f p.interfaces).map fun is => { p with interfaces := is }

def atMessage (kind : MessageKind) (n : Nat) (f : Message → Option Message)
    (i : Interface) :
    Option Interface :=
  (editAt? n f (i.messagesOf kind)).map fun ms => i.withMessages ms kind

def atArgument (n : Nat) (f : Argument → Option Argument)
    (m : Message) : Option Message :=
  (editAt? n f m.args).map fun as => { m with args := as }

def atEnumeration (n : Nat) (f : Enumeration → Option Enumeration)
    (i : Interface) : Option Interface :=
  (editAt? n f i.enums).map fun es => { i with enums := es }

def atEntry (n : Nat) (f : Entry → Option Entry)
    (e : Enumeration) : Option Enumeration :=
  (editAt? n f e.entries).map fun xs => { e with entries := xs }

/-! ## The reader -/

structure MessageMark where
  interface : Nat
  kind : MessageKind
  message : Nat

structure EnumerationMark where
  interface : Nat
  enumeration : Nat

structure Marks where
  interface : Option Nat := none
  message : Option MessageMark := none
  argument : Option (MessageMark × Nat) := none
  enumeration : Option EnumerationMark := none
  entry : Option (EnumerationMark × Nat) := none

/-- An open element: what it is, unless it is passed over, and the texts in it.
-/
structure OpenElement where
  role : Option Role
  summary : Text
  text : Text

structure InPlace where
  imports : List Import := []
  protocol : Option Protocol := none
  stack : List OpenElement := []
  marks : Marks := {}

namespace InPlace

def editProtocol (b : InPlace) (f : Protocol → Option Protocol) :
    Option InPlace := do
  let p ← b.protocol
  let q ← f p
  some { b with protocol := some q }

def editInterface (b : InPlace) (f : Interface → Interface) : Option InPlace :=
    do
  let mark ← b.marks.interface
  b.editProtocol (atInterface mark fun i => some (f i))

def editMessage (b : InPlace) (f : Message → Message) : Option InPlace := do
  let mark ← b.marks.message
  b.editProtocol
    (atInterface mark.interface (atMessage mark.kind mark.message fun m =>
      some (f m)))

def editArgument (b : InPlace) (f : Argument → Argument) : Option InPlace := do
  let (mark, n) ← b.marks.argument
  b.editProtocol (atInterface mark.interface
    (atMessage mark.kind mark.message (atArgument n fun a => some (f a))))

def editEnumeration (b : InPlace) (f : Enumeration → Enumeration) :
    Option InPlace := do
  let mark ← b.marks.enumeration
  b.editProtocol
    (atInterface mark.interface (atEnumeration mark.enumeration fun e =>
    some (f e)))

def editEntry (b : InPlace) (f : Entry → Entry) : Option InPlace := do
  let (mark, n) ← b.marks.entry
  b.editProtocol (atInterface mark.interface
    (atEnumeration mark.enumeration (atEntry n fun x => some (f x))))

def interface? (b : InPlace) : Option Interface := do
  let p ← b.protocol
  let mark ← b.marks.interface
  p.interfaces[mark]?

def message? (b : InPlace) : Option Message := do
  let p ← b.protocol
  let mark ← b.marks.message
  let i ← p.interfaces[mark.interface]?
  (i.messagesOf mark.kind)[mark.message]?

def argument? (b : InPlace) : Option Argument := do
  let p ← b.protocol
  let (mark, n) ← b.marks.argument
  let i ← p.interfaces[mark.interface]?
  let m ← (i.messagesOf mark.kind)[mark.message]?
  m.args[n]?

def enumeration? (b : InPlace) : Option Enumeration := do
  let p ← b.protocol
  let mark ← b.marks.enumeration
  let i ← p.interfaces[mark.interface]?
  i.enums[mark.enumeration]?

/-- What a finding at this point is about: the declarations at the marks that
are set. -/
def coordinates (b : InPlace) : Coordinates where
  protocol := (b.protocol.map Protocol.name).getD []
  interface := (b.interface?.map Interface.name).getD []
  message := (b.message?.map Message.name).getD []
  argument := (b.argument?.map Argument.name).getD []

/-- Write a declaration behind those of its kind, and mark it. -/
def write (b : InPlace) (k : Role)
    (tag : Attributes) : Option (Found InPlace) :=
  let c := b.coordinates
  match k with
  | .protocol =>
    let (p, found) := openProtocol tag c
    some ({ b with protocol := some p }, found)
  | .imported =>
    let (name, found) := tag.required c "name"
    let new := (name.map fun n => (⟨n, tag.span⟩ : Import)).toList
    some ({ b with imports := b.imports ++ new }, found)
  | .interface => do
    let (new, found) := openInterface tag c
    let p ← b.protocol
    let b' ← b.editProtocol fun p => some (p.addInterface new)
    some ({ b' with marks.interface := some p.interfaces.length }, found)
  | .message kind => do
    let (new, found) := openMessage kind tag c
    let mark ← b.marks.interface
    let i ← b.interface?
    let b' ← b.editInterface fun i => i.addMessage new
    let n := (i.messagesOf kind).length
    some ({ b' with marks.message := some ⟨mark, kind, n⟩ }, found)
  | .argument => do
    let (new, found) := openArgument tag c
    let mark ← b.marks.message
    let m ← b.message?
    let b' ← b.editMessage fun m => m.addArgument new
    some ({ b' with marks.argument := some (mark, m.args.length) }, found)
  | .enumeration => do
    let (new, found) := openEnumeration tag c
    let mark ← b.marks.interface
    let i ← b.interface?
    let b' ← b.editInterface fun i => i.addEnumeration new
    some ({ b' with marks.enumeration := some ⟨mark, i.enums.length⟩ }, found)
  | .entry => do
    let (new, found) := openEntry tag c
    let mark ← b.marks.enumeration
    let e ← b.enumeration?
    let b' ← b.editEnumeration fun e => e.addEntry new
    some ({ b' with marks.entry := some (mark, e.entries.length) }, found)
  | .copyright => some (b, [])
  | .description => some (b, [])

def push (b : InPlace) (role : Option Role) (tag : Attributes) : InPlace :=
  { b with stack := ⟨role, tag.getD "summary", []⟩ :: b.stack }

/-- An element that stands where it may is opened. -/
def enter (b : InPlace) (k : Role)
    (tag : Attributes) : Option (Found InPlace) := do
  let (b', found) ← b.write k tag
  some (b'.push (if k.stands tag then some k else none) tag, found)

def opened (b : InPlace) (tag : Attributes) : Option (Found InPlace) :=
  match b.stack with
  | [] =>
    if tag.element = "protocol" then b.enter .protocol tag
    else some (b.push none tag, [rootless tag b.coordinates])
  | top :: _ =>
    match top.role with
    | none => some (b.push none tag, [])
    | some k =>
      match k.child? tag.element with
      | none => some (b.push none tag, [misplaced k tag b.coordinates])
      | some j => b.enter j tag

/-- A description is written at the mark of the element around it, if that has
one. -/
def describe (b : InPlace) (d : Description) : Option InPlace :=
  match b.stack.head?.bind OpenElement.role with
  | some .protocol => b.editProtocol fun p => some { p with description := d }
  | some .interface => b.editInterface fun i => { i with description := d }
  | some (.message _) => b.editMessage fun m => { m with description := d }
  | some .enumeration => b.editEnumeration fun e => { e with description := d }
  | some .argument =>
    b.editArgument fun a => { a with
        summary := summarize a.summary d.summary d.text }
  | some .entry =>
    b.editEntry fun e => { e with
        summary := summarize e.summary d.summary d.text }
  | _ => some b

/-- The end of an element: its mark is taken away. -/
def leave (b : InPlace) (e : OpenElement) : Option InPlace :=
  match e.role with
  | some .copyright =>
    some { b with protocol := b.protocol.map fun p => { p with
        copyright := Text.trim e.text } }
  | some .description => b.describe ⟨e.summary, Text.trim e.text⟩
  | some .interface => some { b with marks.interface := none }
  | some (.message _) => some { b with marks.message := none }
  | some .argument => some { b with marks.argument := none }
  | some .enumeration => some { b with marks.enumeration := none }
  | some .entry => some { b with marks.entry := none }
  | _ => some b

def closed (b : InPlace) : Option InPlace :=
  match b.stack with
  | [] => some b
  | top :: rest => leave { b with stack := rest } top

def text (b : InPlace) (data : Text) : InPlace :=
  match b.stack with
  | [] => b
  | top :: rest =>
    { b with stack := { top with text := top.text ++ data } :: rest }

def step (b : InPlace) (span : Span) : Markup.Event → Option (Found InPlace)
  | .opened name attributes => b.opened ⟨name.localName, attributes, span⟩
  | .closed _ => b.closed.map fun b' => (b', [])
  | .text data => some (b.text data, [])
  | .other => some (b, [])

end InPlace

/-- A finding on a document that has more bytes than a span can tell. -/
def tooLarge (c : Coordinates) (span : Span) (offset : Nat) : Diagnostic :=
  .error .malformed span c
    ("document is too large: offset " ++ Text.ofNat offset
      ++ " does not fit a source span")

def spanBetween (file : UInt32) (start stop : Nat) : Span :=
  ⟨file, UInt32.ofNat start, UInt32.ofNat stop⟩

/-- All events in turn, from the span of the event before and the offset behind
it. The document is the one at the end of the stream, or none if reading had to
stop. There is no result at all if something was written without a mark. -/
def InPlace.run (file : UInt32) (limit : Int) (ending : Markup.Ending)
    (last : Nat) (b : InPlace) (span : Span) (start : Nat) :
    List Markup.Located → Option (Found (Option InPlace))
  | [] =>
    if limit < last then some (none, [tooLarge b.coordinates span last])
    else
      match ending with
      | .complete => some (some b, [])
      | .failed fault line =>
        some (none,
          [.error .malformed (spanBetween file start last) b.coordinates
          ("malformed XML: " ++ fault.describe line)])
  | e :: es =>
    if limit < e.stop then some (none, [tooLarge b.coordinates span e.stop])
    else do
      let here := spanBetween file start e.stop
      let (b', found) ← b.step here e.event
      let (result, more) ← b'.run file limit ending last here e.stop es
      some (result, found ++ more)

/-- The largest offset that a span can tell. -/
def maxOffset : Int := 0x100000000 - 1

/-- Read the document in a source file. There is none if the text is malformed,
too large for the given limit on offsets, or without a protocol element. -/
def read (limit : Int) (f : Source.File) : Found (Option Document) :=
  if limit < 0 then (none, [tooLarge {} {} 0])
  else
    let s := Markup.stream f.content
    match InPlace.run f.id limit s.ending s.stop {} {} 0 s.events with
    | none => (none, [])
    | some (none, found) => (none, found)
    | some (some b, found) =>
      match b.protocol with
      | none =>
        (none, found ++ [.error .missingProtocol ⟨f.id, 0, 0⟩ {}
          "document has no <protocol> element"])
      | some p =>
        (some {
            path := f.path
            file := f.id
            imports := b.imports
            protocol := some p }, found)

end Document

end ProtocolCorpus
