import ProtocolCorpus.Document.Reader

/-!
# Open elements as a stack

A reader that keeps the open elements as a stack of frames; an element is added
to its parent when it is closed. It says the same as the reader that writes
every declaration into the document at once, and what has been read so far is
easier to tell from it.
-/

namespace ProtocolCorpus

namespace Document

/-- An open element with what has been read of it. -/
inductive Frame
  | protocol (p : Protocol)
  | copyright (text : Text)
  | imported
  | interface (i : Interface)
  | message (m : Message)
  | argument (a : Argument)
  | enumeration (e : Enumeration)
  | entry (e : Entry)
  | description (summary text : Text)
  /-- An element that is passed over. -/
  | skipped
  deriving DecidableEq, Repr

def Frame.element : Frame → Text
  | .protocol _ => "protocol"
  | .copyright _ => "copyright"
  | .imported => "import"
  | .interface _ => "interface"
  | .message m => m.kind.name
  | .argument _ => "arg"
  | .enumeration _ => "enum"
  | .entry _ => "entry"
  | .description _ _ => "description"
  | .skipped => []

/-- What has been read of a document. -/
structure Reading where
  imports : List Import := []
  protocol : Option Protocol := none
  /-- The open elements, the innermost first. -/
  stack : List Frame := []
  deriving DecidableEq, Repr

def Frame.locate (c : Coordinates) : Frame → Coordinates
  | .protocol p => { c with protocol := p.name }
  | .interface i => { c with interface := i.name }
  | .message m => { c with message := m.name }
  | .argument a => { c with argument := a.name }
  | _ => c

def Reading.coordinates (r : Reading) : Coordinates :=
  r.stack.foldr (fun f c => f.locate c)
    { protocol := (r.protocol.map Protocol.name).getD [] }

/-- The frame after one of its elements was closed. -/
def Frame.absorb (parent child : Frame) : Frame :=
  match parent, child with
  | .protocol p, .copyright t => .protocol { p with copyright := Text.trim t }
  | .protocol p, .interface i =>
    .protocol { p with interfaces := p.interfaces ++ [i] }
  | .protocol p, .description s t =>
    .protocol { p with description := ⟨s, Text.trim t⟩ }
  | .interface i, .message m =>
    match m.kind with
    | .request => .interface { i with requests := i.requests ++ [m] }
    | .event => .interface { i with events := i.events ++ [m] }
  | .interface i, .enumeration e =>
    .interface { i with enums := i.enums ++ [e] }
  | .interface i, .description s t =>
    .interface { i with description := ⟨s, Text.trim t⟩ }
  | .message m, .argument a => .message { m with args := m.args ++ [a] }
  | .message m, .description s t =>
    .message { m with description := ⟨s, Text.trim t⟩ }
  | .enumeration e, .entry x =>
    .enumeration { e with entries := e.entries ++ [x] }
  | .enumeration e, .description s t =>
    .enumeration { e with description := ⟨s, Text.trim t⟩ }
  | .argument a, .description s t =>
    .argument { a with summary := summarize a.summary s (Text.trim t) }
  | .entry e, .description s t =>
    .entry { e with summary := summarize e.summary s (Text.trim t) }
  | parent, _ => parent

/-- Character data adds to a copyright notice or a description and to nothing
else. -/
def Frame.addText (data : Text) : Frame → Frame
  | .copyright t => .copyright (t ++ data)
  | .description s t => .description s (t ++ data)
  | f => f

def Reading.close (r : Reading) : Reading :=
  match r.stack with
  | [] => r
  | [.protocol p] => { r with stack := [], protocol := some p }
  | [_] => { r with stack := [] }
  | child :: parent :: rest => { r with stack := parent.absorb child :: rest }

def Reading.text (r : Reading) (data : Text) : Reading :=
  match r.stack with
  | [] => r
  | top :: rest => { r with stack := top.addText data :: rest }

/-- What an opening tag means, by the innermost open element and its own name.
-/
inductive Meaning
  | protocol
  | copyright
  | imported
  | interface
  | message (kind : MessageKind)
  | argument
  | enumeration
  | entry
  | description
  | hidden
  | unexpected

/-- The meaning of an element with a name inside the innermost open element. -/
def meaning (parent : Option Frame) (element : Text) : Meaning :=
  match parent with
  | none => if element == "protocol" then .protocol else .unexpected
  | some .skipped => .hidden
  | some (.protocol _) =>
    if element == "copyright" then .copyright
    else if element == "import" then .imported
    else if element == "interface" then .interface
    else general
  | some (.interface _) =>
    if element == "request" then .message .request
    else if element == "event" then .message .event
    else if element == "enum" then .enumeration
    else general
  | some (.message _) => if element == "arg" then .argument else general
  | some (.enumeration _) => if element == "entry" then .entry else general
  | some _ => general
where
  general : Meaning := if element == "description" then .description
    else .unexpected

/-- What is said of an element without meaning. -/
def unexpectedElement (parent : Option Frame) (a : Attributes)
    (c : Coordinates) : Diagnostic :=
  match parent with
  | none => .error .unexpectedElement a.span c
      ("unexpected root element <" ++ a.element ++ ">, want <protocol>")
  | some f => .warning .unexpectedElement a.span c
      ("unexpected element <" ++ a.element ++ "> inside <" ++ f.element ++ ">")

def Reading.opened (r : Reading) (a : Attributes) : Found Reading :=
  let c := r.coordinates
  let push (f : Frame) (found : List Diagnostic) : Found Reading :=
    ({ r with stack := f :: r.stack }, found)
  match meaning r.stack.head? a.element with
  | .protocol => push (.protocol (openProtocol a c).1) (openProtocol a c).2
  | .copyright => push (.copyright []) []
  | .imported =>
    let (name, found) := a.required c "name"
    match name with
    | some n =>
      ({ r with
          imports := r.imports ++ [⟨n, a.span⟩], stack :=
            .imported :: r.stack }, found)
    | none => push .skipped found
  | .interface => push (.interface (openInterface a c).1) (openInterface a c).2
  | .message kind => 
    push (.message (openMessage kind a c).1) (openMessage kind a c).2
  | .argument => push (.argument (openArgument a c).1) (openArgument a c).2
  | .enumeration =>
    push (.enumeration (openEnumeration a c).1) (openEnumeration a c).2
  | .entry => push (.entry (openEntry a c).1) (openEntry a c).2
  | .description => push (.description (a.getD "summary") []) []
  | .hidden => push .skipped []
  | .unexpected => push .skipped [unexpectedElement r.stack.head? a c]

def Reading.step (r : Reading) (span : Span) : Markup.Event → Found Reading
  | .opened name attributes => r.opened ⟨name.localName, attributes, span⟩
  | .closed _ => (r.close, [])
  | .text data => (r.text data, [])
  | .other => (r, [])

/-- All events in turn, from a reading, the span of the event before and the
offset behind it. The result is the reading at the end of the stream, or nothing
if reading had to stop. -/
def Reading.run (file : UInt32) (limit : Int) (ending : Markup.Ending)
    (last : Nat) (r : Reading)
    (span : Span) (start : Nat) : List Markup.Located → Found (Option Reading)
  | [] =>
    if limit < last then (none, [tooLarge r.coordinates span last])
    else
      match ending with
      | .complete => (some r, [])
      | .failed fault line =>
        (none, [.error .malformed (spanBetween file start last) r.coordinates
          ("malformed XML: " ++ fault.describe line)])
  | e :: es =>
    if limit < e.stop then (none, [tooLarge r.coordinates span e.stop])
    else
      let here := spanBetween file start e.stop
      let (r', found) := r.step here e.event
      let (result, more) := Reading.run file limit ending last r' here e.stop es
      (result, found ++ more)

def stackRead (limit : Int) (f : Source.File) : Found (Option Document) :=
  if limit < 0 then (none, [tooLarge {} {} 0])
  else
    let s := Markup.stream f.content
    let (result, found) :=
      Reading.run f.id limit s.ending s.stop {} {} 0 s.events
    match result with
    | none => (none, found)
    | some r =>
      match r.protocol with
      | none =>
        (none, found ++ [.error .missingProtocol ⟨f.id, 0, 0⟩ {}
          "document has no <protocol> element"])
      | some p =>
        (some { path := f.path, file := f.id, imports := r.imports,
                protocol := some p },
          found)

end Document

end ProtocolCorpus
