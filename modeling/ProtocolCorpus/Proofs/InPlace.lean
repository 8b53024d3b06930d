import Mathlib.Data.List.Forall2
import ProtocolCorpus.Proofs.TreeReading

/-!
# Reading in place

The reader writes every declaration into the document as soon as its tag
is open, at the mark of the one around it. It goes in lockstep with the reader
that keeps the open declarations on a stack, so no mark is ever missing, and
both end with the same document and the same findings.
-/

namespace ProtocolCorpus

namespace Document

variable {f : Frame} {fs : List Frame} {r : Reading} {j k : Role}
  {tag : Attributes}

/-- All events in turn; there is no result once something was written without a
mark. -/
def InPlace.follow (b : InPlace) : List (Span × Markup.Event) →
    Option (Found InPlace)
  | [] => some (b, [])
  | (span, e) :: es => do
    let (b', found) ← b.step span e
    let (b'', more) ← b'.follow es
    some (b'', found ++ more)

/-! ## The open declarations -/

/-- The open declarations, each without the one inside it. -/
inductive Spine
  | none
  | protocol (p : Protocol)
  | interface (p : Protocol) (i : Interface)
  | message (p : Protocol) (i : Interface) (m : Message)
  | argument (p : Protocol) (i : Interface) (m : Message) (a : Argument)
  | enumeration (p : Protocol) (i : Interface) (e : Enumeration)
  | entry (p : Protocol) (i : Interface) (e : Enumeration) (x : Entry)

namespace Spine

def frames : Spine → List Frame
  | .none => []
  | .protocol p => [.protocol p]
  | .interface p i => [.interface i, .protocol p]
  | .message p i m => [.message m, .interface i, .protocol p]
  | .argument p i m a => [.argument a, .message m, .interface i, .protocol p]
  | .enumeration p i e => [.enumeration e, .interface i, .protocol p]
  | .entry p i e x => [.entry x, .enumeration e, .interface i, .protocol p]

/-- The protocol with all that is open in it. -/
def built : Spine → Option Protocol
  | .none => Option.none
  | .protocol p => some p
  | .interface p i => some (p.addInterface i)
  | .message p i m => some (p.addInterface (i.addMessage m))
  | .argument p i m a => some (p.addInterface (i.addMessage (m.addArgument a)))
  | .enumeration p i e => some (p.addInterface (i.addEnumeration e))
  | .entry p i e x => some (p.addInterface (i.addEnumeration (e.addEntry x)))

/-- A mark is set exactly while its declaration is open. -/
def marks : Spine → Marks
  | .none => {}
  | .protocol _ => {}
  | .interface p _ => { interface := some p.interfaces.length }
  | .message p i m =>
    { interface := some p.interfaces.length
      message :=
        some ⟨p.interfaces.length, m.kind, (i.messagesOf m.kind).length⟩ }
  | .argument p i m _ =>
    { interface := some p.interfaces.length
      message :=
        some ⟨p.interfaces.length, m.kind, (i.messagesOf m.kind).length⟩
      argument :=
        some (⟨p.interfaces.length, m.kind, (i.messagesOf m.kind).length⟩,
          m.args.length) }
  | .enumeration p i _ =>
    { interface := some p.interfaces.length
      enumeration := some ⟨p.interfaces.length, i.enums.length⟩ }
  | .entry p i e _ =>
    { interface := some p.interfaces.length
      enumeration := some ⟨p.interfaces.length, i.enums.length⟩
      entry := some (⟨p.interfaces.length, i.enums.length⟩, e.entries.length) }

/-- The document as it has been written, behind a protocol that was closed
before. -/
def inPlace (s : Spine) (imports : List Import) (old : Option Protocol)
    (stack : List OpenElement) :
    InPlace where
  imports := imports
  protocol := s.built.or old
  stack := stack
  marks := s.marks

end Spine

/-! ## Writing at the marks -/

theorem editAt?_length {α : Type} (f : α → Option α) (xs : List α) (x : α) :
    editAt? xs.length f (xs ++ [x]) = (f x).map fun y => xs ++ [y] := by
  cases h : f x <;> simp [editAt?, h]

theorem atInterface_addInterface
    {f : Interface → Option Interface} {i i' : Interface} (h : f i = some i')
    (p : Protocol) :
    atInterface p.interfaces.length f (p.addInterface i) =
      some (p.addInterface i') := by
  simp [atInterface, Protocol.addInterface, editAt?_length, h]

theorem atMessage_addMessage
    {f : Message → Option Message} {m m' : Message} (h : f m = some m')
    (hkind : m'.kind = m.kind) (i : Interface) :
    atMessage m.kind (i.messagesOf m.kind).length f (i.addMessage m) =
      some (i.addMessage m') := by
  unfold atMessage Interface.addMessage
  rw [hkind]
  cases m.kind <;>
    simp [Interface.messagesOf, Interface.withMessages, editAt?_length, h]

theorem atArgument_addArgument
    {f : Argument → Option Argument} {a a' : Argument} (h : f a = some a')
    (m : Message) :
    atArgument m.args.length f (m.addArgument a) = some (m.addArgument a') := by
  simp [atArgument, Message.addArgument, editAt?_length, h]

theorem atEnumeration_addEnumeration
    {f : Enumeration → Option Enumeration} {e e' : Enumeration}
    (h : f e = some e') (i : Interface) :
    atEnumeration i.enums.length f (i.addEnumeration e) =
      some (i.addEnumeration e') := by
  simp [atEnumeration, Interface.addEnumeration, editAt?_length, h]

theorem atEntry_addEntry
    {f : Entry → Option Entry} {x x' : Entry} (h : f x = some x')
    (e : Enumeration) :
    atEntry e.entries.length f (e.addEntry x) = some (e.addEntry x') := by
  simp [atEntry, Enumeration.addEntry, editAt?_length, h]

section

variable {p : Protocol} {i : Interface} {m : Message} {a : Argument}
  {e : Enumeration} {x : Entry}
  {imports : List Import} {old : Option Protocol} {stack : List OpenElement}

theorem editProtocol_inPlace
    {f : Protocol → Option Protocol} {p' : Protocol} (h : f p = some p') :
    ((Spine.protocol p).inPlace imports old stack).editProtocol f =
      some ((Spine.protocol p').inPlace imports old stack) := by
  simp [InPlace.editProtocol, Spine.inPlace, Spine.built, Spine.marks, h]

theorem editInterface_inPlace (f : Interface → Interface) :
    ((Spine.interface p i).inPlace imports old stack).editInterface f =
      some ((Spine.interface p (f i)).inPlace imports old stack) := by
  simp [InPlace.editInterface, InPlace.editProtocol, Spine.inPlace, Spine.built,
    Spine.marks, atInterface_addInterface]

theorem editMessage_inPlace
    {f : Message → Message} (h : (f m).kind = m.kind) :
    ((Spine.message p i m).inPlace imports old stack).editMessage f =
      some ((Spine.message p i (f m)).inPlace imports old stack) := by
  have hwritten := atMessage_addMessage (f := fun m => some (f m)) rfl h i
  simp [InPlace.editMessage, InPlace.editProtocol, Spine.inPlace, Spine.built,
    Spine.marks, atInterface_addInterface hwritten, h]

theorem editArgument_inPlace (f : Argument → Argument) :
    ((Spine.argument p i m a).inPlace imports old stack).editArgument f =
      some ((Spine.argument p i m (f a)).inPlace imports old stack) := by
  have hargument := atArgument_addArgument (f := fun a => some (f a))
    (a := a) rfl m
  have hmessage : atMessage m.kind (i.messagesOf m.kind).length
      (atArgument m.args.length fun a => some (f a))
      (i.addMessage (m.addArgument a)) =
      some (i.addMessage (m.addArgument (f a))) :=
    atMessage_addMessage hargument rfl i
  simp [InPlace.editArgument, InPlace.editProtocol, Spine.inPlace, Spine.built,
    Spine.marks, atInterface_addInterface hmessage]

theorem editEnumeration_inPlace (f : Enumeration → Enumeration) :
    ((Spine.enumeration p i e).inPlace imports old stack).editEnumeration f =
      some ((Spine.enumeration p i (f e)).inPlace imports old stack) := by
  have hwritten := atEnumeration_addEnumeration (f := fun e => some (f e))
    (e := e) rfl i
  simp [InPlace.editEnumeration, InPlace.editProtocol, Spine.inPlace,
    Spine.built, Spine.marks, atInterface_addInterface hwritten]

theorem editEntry_inPlace (f : Entry → Entry) :
    ((Spine.entry p i e x).inPlace imports old stack).editEntry f =
      some ((Spine.entry p i e (f x)).inPlace imports old stack) := by
  have hentry := atEntry_addEntry (f := fun x => some (f x)) (x := x) rfl e
  have hwritten := atEnumeration_addEnumeration hentry i
  simp [InPlace.editEntry, InPlace.editProtocol, Spine.inPlace, Spine.built,
    Spine.marks, atInterface_addInterface hwritten]

end

theorem messagesOf_addMessage
    {m : Message} {kind : MessageKind} (h : m.kind = kind) (i : Interface) :
    (i.addMessage m).messagesOf kind = i.messagesOf kind ++ [m] := by
  subst h
  unfold Interface.addMessage
  cases m.kind <;> rfl

theorem name_addMessage (i : Interface) (m : Message) :
    (i.addMessage m).name = i.name := by
  unfold Interface.addMessage
  cases m.kind <;> rfl

/-- The marks show the names of the open declarations. -/
theorem coordinates_inPlace
    (s : Spine) (imports : List Import) (old : Option Protocol)
    (stack : List OpenElement) :
    (s.inPlace imports old stack).coordinates =
      Reading.coordinates ⟨imports, old, s.frames⟩ := by
  cases s <;>
    simp [InPlace.coordinates, InPlace.interface?, InPlace.message?,
    InPlace.argument?, Spine.inPlace, Spine.built, Spine.marks, Spine.frames,
    Reading.coordinates, Frame.locate, Protocol.addInterface,
    messagesOf_addMessage, name_addMessage, Interface.addEnumeration,
    Message.addArgument]

/-! ## The open elements -/

/-- The open elements are the open declarations, with descriptions and elements
that are passed over inside the innermost one. -/
inductive Standing : List Frame → Spine → Prop
  | spine {fs : List Frame} (s : Spine) : s.frames = fs → Standing fs s
  | copyright (text : Text) (p : Protocol) :
  Standing [.copyright text, .protocol p] (.protocol p)
  | imported (p : Protocol) : Standing [.imported, .protocol p] (.protocol p)
  | description {fs : List Frame} {s : Spine} (summary text : Text) :
      Standing fs s → Standing (.description summary text :: fs) s
  | skipped {fs : List Frame} {s : Spine} : Standing fs s →
    Standing (.skipped :: fs) s

/-- What the second reader remembers of an open element. -/
structure Remembers (f : Frame) (e : OpenElement) : Prop where
  role : e.role = f.role?
  copyright : ∀ text, f = .copyright text → e.text = text
  description : ∀ summary text, f = .description summary text →
    e.summary = summary ∧ e.text = text

/-- Both readers have read the same. -/
inductive Mirrors : Reading → InPlace → Prop
  | intro {fs : List Frame} {es : List OpenElement} {s : Spine}
  (imports : List Import)
      (old : Option Protocol) :
      Standing fs s → List.Forall₂ Remembers fs es →
      Mirrors ⟨imports, old, fs⟩ (s.inPlace imports old es)

theorem Standing.coordinates {s : Spine} (h : Standing fs s)
    (imports : List Import) (old : Option Protocol) :
    Reading.coordinates ⟨imports, old, fs⟩ =
      Reading.coordinates ⟨imports, old, s.frames⟩ := by
  induction h with
  | spine s hframes => rw [hframes]
  | copyright text p => rfl
  | imported p => rfl
  | description summary text hfs ih => exact ih
  | skipped hfs ih => exact ih

theorem Mirrors.coordinates {b : InPlace} (h : Mirrors r b) :
    b.coordinates = r.coordinates := by
  obtain ⟨imports, old, hstanding, -⟩ := h
  rw [coordinates_inPlace, ← hstanding.coordinates]

theorem remembers_frame (k : Role) (tag : Attributes) :
    Remembers (k.frame tag []) ⟨if k.stands tag then some k
    else none, tag.getD "summary", []⟩ := by
  refine ⟨?_, ?_, ?_⟩
  · by_cases h : k.stands tag
    · rw [if_pos h, Role.role?_frame h]
    · rw [if_neg h, Role.frame_of_not_stands (by simpa using h)]
      rfl
  · intro text htext
    cases k with
    | copyright =>
      cases htext
      rfl
    | imported =>
      rw [Role.frame] at htext
      split at htext <;> cases htext
    | _ => cases htext
  · intro summary text htext
    cases k with
    | description =>
      cases htext
      exact ⟨rfl, rfl⟩
    | imported =>
      rw [Role.frame] at htext
      split at htext <;> cases htext
    | _ => cases htext

theorem openProtocol_eq (tag : Attributes) (c : Coordinates) :
    openProtocol tag c = (protocolOf tag [], Role.protocol.found tag c) :=
  Prod.ext (fst_openProtocol tag c) rfl

theorem openInterface_eq (tag : Attributes) (c : Coordinates) :
    openInterface tag c = (interfaceOf tag [], Role.interface.found tag c) :=
  Prod.ext (fst_openInterface tag c) rfl

theorem openMessage_eq (kind : MessageKind) (tag : Attributes)
    (c : Coordinates) :
    openMessage kind tag c =
      (messageOf kind tag [], (Role.message kind).found tag c) :=
  Prod.ext (fst_openMessage kind tag c) rfl

theorem openArgument_eq (tag : Attributes) (c : Coordinates) :
    openArgument tag c = (argumentOf tag [], Role.argument.found tag c) :=
  Prod.ext (fst_openArgument tag c) rfl

theorem openEnumeration_eq (tag : Attributes) (c : Coordinates) :
    openEnumeration tag c =
    (enumerationOf tag [], Role.enumeration.found tag c) :=
  Prod.ext (fst_openEnumeration tag c) rfl

theorem openEntry_eq (tag : Attributes) (c : Coordinates) :
    openEntry tag c = (entryOf tag [], Role.entry.found tag c) :=
  Prod.ext (fst_openEntry tag c) rfl

theorem required_eq (tag : Attributes) (c : Coordinates) :
    tag.required c "name" = (tag.said? "name", Role.imported.found tag c) :=
  Prod.ext (Attributes.fst_required tag c "name") rfl

/-- The element of a role can be opened below the frames: its part is written at
the marks. -/
def Spine.Opens (s : Spine) (fs : List Frame) (j : Role)
    (tag : Attributes) : Prop :=
  ∀ imports old stack, ∃ s' : Spine,
    (s.inPlace imports old stack).write j tag =
      some (s'.inPlace (imports ++ j.imports tag) old stack,
        j.found tag (s.inPlace imports old stack).coordinates) ∧
    Standing (j.frame tag [] :: fs) s'

theorem opens_in_protocol (hj : j ∈ Role.protocol.children)
    (hne : j ≠ .description) (p : Protocol) (tag : Attributes) :
    (Spine.protocol p).Opens (Spine.protocol p).frames j tag := by
  intro imports old stack
  simp only [Role.children, List.mem_cons, List.not_mem_nil, or_false] at hj
  rcases hj with rfl | rfl | rfl | rfl
  · exact ⟨.protocol
      p, by simp [InPlace.write, Role.imports, Role.found], .copyright _ p⟩
  · refine ⟨.protocol
      p, by simp [InPlace.write, Spine.inPlace, required_eq, Role.imports], ?_⟩
    unfold Role.frame
    by_cases h : (tag.said? "name").isSome
    · rw [if_pos h]
      exact .imported p
    · rw [if_neg h]
      exact .skipped (.spine _ rfl)
  · refine ⟨.interface p (interfaceOf tag []), ?_, .spine _ rfl⟩
    simp [InPlace.write, openInterface_eq, InPlace.editProtocol, Spine.inPlace,
      Spine.built, Spine.marks, Role.imports]
  · exact absurd rfl hne

theorem opens_in_interface (hj : j ∈ Role.interface.children)
    (hne : j ≠ .description) (p : Protocol) (i : Interface) (tag : Attributes) :
    (Spine.interface p i).Opens (Spine.interface p i).frames j tag := by
  intro imports old stack
  have hmarked : ((Spine.interface p i).inPlace imports old stack).interface? =
      some i := by
    simp [InPlace.interface?, Spine.inPlace, Spine.built, Spine.marks,
      Protocol.addInterface]
  have hmessage : ∀ kind,
      ((Spine.interface p i).inPlace imports old stack).write
      (.message kind) tag =
        some ((Spine.message p i (messageOf kind tag [])).inPlace
        imports old stack, (Role.message kind).found tag
            ((Spine.interface p i).inPlace imports old stack).coordinates) := by
    intro kind
    simp only [InPlace.write, openMessage_eq, hmarked, editInterface_inPlace]
    rfl
  simp only [Role.children, List.mem_cons, List.not_mem_nil, or_false] at hj
  rcases hj with rfl | rfl | rfl | rfl
  · refine ⟨.message p i (messageOf .request tag []), ?_, .spine _ rfl⟩
    simp only [hmessage, Role.imports, List.append_nil]
  · refine ⟨.message p i (messageOf .event tag []), ?_, .spine _ rfl⟩
    simp only [hmessage, Role.imports, List.append_nil]
  · refine ⟨.enumeration p i (enumerationOf tag []), ?_, .spine _ rfl⟩
    simp only [InPlace.write, openEnumeration_eq, hmarked,
      editInterface_inPlace, Role.imports, List.append_nil]
    rfl
  · exact absurd rfl hne

theorem opens_in_message {m : Message} (hj : j ∈ (Role.message m.kind).children)
    (hne : j ≠ .description) (p : Protocol) (i : Interface) (tag : Attributes) :
    (Spine.message p i m).Opens (Spine.message p i m).frames j tag := by
  intro imports old stack
  have hmarked : ((Spine.message p i m).inPlace imports old stack).message? =
      some m := by
    simp [InPlace.message?, Spine.inPlace, Spine.built, Spine.marks,
      Protocol.addInterface, messagesOf_addMessage]
  simp only [Role.children, List.mem_cons, List.not_mem_nil, or_false] at hj
  obtain rfl := hj.resolve_right hne
  refine ⟨.argument p i m (argumentOf tag []), ?_, .spine _ rfl⟩
  have hwritten : ((Spine.message p i m).inPlace imports old stack).editMessage
      (fun m => m.addArgument (argumentOf tag [])) =
        some ((Spine.message p i (m.addArgument (argumentOf tag []))).inPlace
        imports old stack) :=
    editMessage_inPlace rfl
  simp only [InPlace.write, openArgument_eq, hmarked, hwritten, Role.imports,
    List.append_nil]
  rfl

theorem opens_in_enumeration (hj : j ∈ Role.enumeration.children)
    (hne : j ≠ .description)
    (p : Protocol) (i : Interface) (e : Enumeration) (tag : Attributes) :
    (Spine.enumeration p i e).Opens (Spine.enumeration p i e).frames j tag := by
  intro imports old stack
  have hmarked :
      ((Spine.enumeration p i e).inPlace imports old stack).enumeration? =
      some e := by
    simp [InPlace.enumeration?, Spine.inPlace, Spine.built, Spine.marks,
      Protocol.addInterface, Interface.addEnumeration]
  simp only [Role.children, List.mem_cons, List.not_mem_nil, or_false] at hj
  obtain rfl := hj.resolve_right hne
  refine ⟨.entry p i e (entryOf tag []), ?_, .spine _ rfl⟩
  simp only [InPlace.write, openEntry_eq, hmarked, editEnumeration_inPlace,
    Role.imports, List.append_nil]
  rfl

/-- What may stand in the innermost open element has a mark to be written at. -/
theorem Standing.opens {s : Spine} (h : Standing (f :: fs) s)
    (hrole : f.role? = some k)
    (hj : j ∈ k.children) (tag : Attributes) : s.Opens (f :: fs) j tag := by
  -- inside anything but a declaration with parts only a description may stand
  by_cases hdescription : j = .description
  · subst hdescription
    intro imports old stack
    exact ⟨s, by simp [InPlace.write, Role.imports, Role.found],
      .description _ _ h⟩
  · cases h with
    | spine s hframes =>
      cases s with
      | none => cases hframes
      | protocol p =>
        cases hframes
        cases hrole
        exact opens_in_protocol hj hdescription p tag
      | interface p i =>
        cases hframes
        cases hrole
        exact opens_in_interface hj hdescription p i tag
      | message p i m =>
        cases hframes
        cases hrole
        exact opens_in_message hj hdescription p i tag
      | argument p i m a =>
        cases hframes
        cases hrole
        exact absurd (List.mem_singleton.1 hj) hdescription
      | enumeration p i e =>
        cases hframes
        cases hrole
        exact opens_in_enumeration hj hdescription p i e tag
      | entry p i e x =>
        cases hframes
        cases hrole
        exact absurd (List.mem_singleton.1 hj) hdescription
    | copyright text p =>
      cases hrole
      exact absurd (List.mem_singleton.1 hj) hdescription
    | imported p =>
      cases hrole
      exact absurd (List.mem_singleton.1 hj) hdescription
    | description summary text h =>
      cases hrole
      exact absurd (List.mem_singleton.1 hj) hdescription
    | skipped h => cases hrole

/-! ## Lockstep -/

theorem remembers_skipped (summary : Text) :
    Remembers .skipped ⟨none, summary, []⟩ := by
  refine ⟨rfl, ?_, ?_⟩
  · intro text htext
    cases htext
  · intro summary text htext
    cases htext

theorem Standing.eq_none
    {s : Spine} (h : Standing [] s) :
    s = .none := by
  cases h with
  | spine s hframes =>
    cases s with
    | none => rfl
    | _ => cases hframes

theorem InPlace.enter_of_write
    {b b' : InPlace} {found : List Diagnostic}
    (h : b.write k tag = some (b', found)) :
    b.enter k tag =
      some (b'.push (if k.stands tag then some k else none) tag, found) := by
  rw [InPlace.enter, h]
  rfl

theorem InPlace.opened_of_child {b : InPlace} {e : OpenElement}
    (hhead : b.stack.head? = some e)
    (hrole : e.role = some k) (hchild : k.child? tag.element = some j) :
    b.opened tag = b.enter j tag := by
  obtain ⟨es, hstack⟩ := List.head?_eq_some_iff.1 hhead
  simp [InPlace.opened, hstack, hrole, hchild]

theorem InPlace.opened_of_misplaced {b : InPlace} {e : OpenElement}
    (hhead : b.stack.head? = some e)
    (hrole : e.role = some k) (hchild : k.child? tag.element = none) :
    b.opened tag = some (b.push none tag, [misplaced k tag b.coordinates]) := by
  obtain ⟨es, hstack⟩ := List.head?_eq_some_iff.1 hhead
  simp [InPlace.opened, hstack, hrole, hchild]

theorem InPlace.opened_of_hidden
    {b : InPlace} {e : OpenElement} (hhead : b.stack.head? = some e)
    (hrole : e.role = none) (tag : Attributes) :
    b.opened tag = some (b.push none tag, []) := by
  obtain ⟨es, hstack⟩ := List.head?_eq_some_iff.1 hhead
  simp [InPlace.opened, hstack, hrole]

theorem Mirrors.opened_nil
    {s : Spine} (h : Standing [] s) (tag : Attributes) (imports : List Import)
    (old : Option Protocol) :
    ∃ b', (s.inPlace imports old []).opened tag =
      some (b', (Reading.opened ⟨imports, old, []⟩ tag).2) ∧
      Mirrors (Reading.opened ⟨imports, old, []⟩ tag).1 b' := by
  have hcoordinates : (s.inPlace imports old []).coordinates =
    { protocol := (old.map Protocol.name).getD [] } :=
    Mirrors.coordinates (.intro imports old h .nil)
  obtain rfl := h.eq_none
  by_cases hprotocol : tag.element = "protocol"
  · have hwrite : (Spine.none.inPlace imports old []).write .protocol tag =
        some ((Spine.protocol (protocolOf tag [])).inPlace imports old [],
          Role.protocol.found tag
          (Spine.none.inPlace imports old []).coordinates) := by
      rw [InPlace.write, openProtocol_eq]
      rfl
    have hopened : (Spine.none.inPlace imports old []).opened tag =
        (Spine.none.inPlace imports old []).enter .protocol tag :=
        if_pos hprotocol
    rw [Reading.opened_root hprotocol, hopened, InPlace.enter_of_write hwrite,
      hcoordinates]
    have hstack := List.Forall₂.cons (remembers_frame .protocol tag) .nil
    exact ⟨_, rfl,
      .intro imports old (.spine (.protocol (protocolOf tag [])) rfl) hstack⟩
  · have hopened : (Spine.none.inPlace imports old []).opened tag =
        some ((Spine.none.inPlace imports old []).push none tag,
        [rootless tag _]) := if_neg hprotocol
    rw [Reading.opened_rootless hprotocol, hopened, hcoordinates]
    exact ⟨_, rfl, .intro imports old (.skipped (.spine .none rfl))
      (.cons (remembers_skipped _) .nil)⟩

theorem Mirrors.opened {b : InPlace} (h : Mirrors r b) (tag : Attributes) :
    ∃ b', b.opened tag = some (b', (r.opened tag).2) ∧
    Mirrors (r.opened tag).1 b' := by
  have hcoordinates := h.coordinates
  obtain ⟨imports, old, hstanding, hstack⟩ := h
  cases hstack with
  | nil => exact Mirrors.opened_nil hstanding tag imports old
  | @cons f e fs es hhead htail =>
    have hskipped := List.Forall₂.cons (remembers_skipped (tag.getD "summary"))
      (.cons hhead htail)
    cases hrole : f.role? with
    | none =>
      rw [Reading.opened_of_hidden rfl hrole,
        InPlace.opened_of_hidden rfl (hhead.role.trans hrole)]
      exact ⟨_, rfl, .intro imports old (.skipped hstanding) hskipped⟩
    | some k =>
      cases hchild : k.child? tag.element with
      | none =>
        rw [Reading.opened_of_misplaced rfl hrole hchild,
          InPlace.opened_of_misplaced rfl (hhead.role.trans hrole) hchild,
          hcoordinates]
        exact ⟨_, rfl, .intro imports old (.skipped hstanding) hskipped⟩
      | some j =>
        obtain ⟨s', hwrite, hstanding'⟩ :=
          hstanding.opens hrole (Role.mem_children_of_child? hchild) tag imports
            old (e :: es)
        rw [Reading.opened_of_child rfl hrole hchild,
          InPlace.opened_of_child rfl (hhead.role.trans hrole) hchild,
          InPlace.enter_of_write hwrite, hcoordinates]
        exact ⟨_, rfl, .intro _ old hstanding'
          (.cons (remembers_frame j tag) (.cons hhead htail))⟩

theorem Standing.addText {s : Spine} (h : Standing (f :: fs) s) (data : Text) :
    Standing (f.addText data :: fs) s := by
  cases h with
  | spine s hframes =>
    refine .spine s (hframes.trans ?_)
    cases s <;> cases hframes <;> rfl
  | copyright text p => exact .copyright _ p
  | imported p => exact .imported p
  | description summary text h => exact .description _ _ h
  | skipped h => exact .skipped h

theorem Remembers.addText {e : OpenElement} (h : Remembers f e) (data : Text) :
    Remembers (f.addText data) { e with text := e.text ++ data } := by
  cases f with
  | copyright text =>
    refine ⟨h.role, ?_, by rintro _ _ ⟨⟩⟩
    rintro _ ⟨⟩
    simp [h.copyright text rfl]
  | description summary text =>
    refine ⟨h.role, by rintro _ ⟨⟩, ?_⟩
    rintro _ _ ⟨⟩
    simp [h.description summary text rfl]
  | _ => exact ⟨h.role, by rintro _ ⟨⟩, by rintro _ _ ⟨⟩⟩

theorem Mirrors.text {b : InPlace} (h : Mirrors r b) (data : Text) :
    Mirrors (r.text data) (b.text data) := by
  obtain ⟨imports, old, hstanding, hstack⟩ := h
  cases hstack with
  | nil => exact .intro imports old hstanding .nil
  | cons hhead htail =>
    exact .intro imports old (hstanding.addText data)
      (.cons (hhead.addText data) htail)

/-- The open elements behind one that was closed. -/
def absorbed (child : Frame) : List Frame → List Frame
  | [] => []
  | parent :: rest => parent.absorb child :: rest

theorem Reading.close_cons
    {child : Frame} (h : child.role? ≠ some .protocol) (imports : List Import)
    (old : Option Protocol) (fs : List Frame) :
    Reading.close ⟨imports, old, child :: fs⟩ =
      ⟨imports, old, absorbed child fs⟩ := by
  cases fs with
  | nil =>
    cases child with
    | protocol p => exact absurd rfl h
    | _ => rfl
  | cons parent rest => exact Reading.close_cons_cons ..

theorem absorbed_skipped (fs : List Frame) :
    absorbed .skipped fs = fs := by
  cases fs with
  | nil => rfl
  | cons f fs => rw [absorbed, absorb_skipped]

theorem absorb_message (i : Interface) (m : Message) :
    Frame.absorb (.interface i) (.message m) = .interface (i.addMessage m) := by
  unfold Interface.addMessage
  cases h : m.kind <;>
    simp [Frame.absorb, h, Interface.withMessages, Interface.messagesOf]

theorem Remembers.absorb {e : OpenElement} (h : Remembers f e) (child : Frame) :
    Remembers (f.absorb child) e := by
  -- the texts are those of a notice or a description, and these take nothing in
  have hrole : (f.absorb child).role? = f.role? := by
    cases f with
    | interface i =>
      cases child with
      | message m =>
        rw [absorb_message]
        rfl
      | _ => rfl
    | _ => cases child <;> rfl
  refine ⟨h.role.trans hrole.symm, ?_, ?_⟩
  · intro text htext
    cases f with
    | copyright text' => cases child <;> exact h.copyright text htext
    | _ =>
      rw [htext] at hrole
      cases hrole
  · intro summary text htext
    cases f with
    | description summary' text' =>
      cases child <;> exact h.description summary text htext
    | _ =>
      rw [htext] at hrole
      cases hrole

theorem remembers_absorbed {es : List OpenElement}
    (h : List.Forall₂ Remembers fs es) (child : Frame) :
    List.Forall₂ Remembers (absorbed child fs) es := by
  cases h with
  | nil => exact .nil
  | cons hhead htail => exact .cons (hhead.absorb child) htail

/-- A description finds the mark of the element around it set. -/
theorem Standing.exists_describe {es : List OpenElement} {s : Spine}
    (h : Standing fs s) (hstack : List.Forall₂ Remembers fs es)
    (summary text : Text) (imports : List Import) (old : Option Protocol) :
    ∃ s', (s.inPlace imports old es).describe ⟨summary, Text.trim text⟩ =
      some (s'.inPlace imports old es) ∧
      Standing (absorbed (.description summary text) fs) s' := by
  have hrole : (s.inPlace imports old es).stack.head?.bind OpenElement.role =
      fs.head?.bind Frame.role? := by
    cases hstack with
    | nil => rfl
    | cons hhead htail => exact hhead.role
  unfold InPlace.describe
  rw [hrole]
  cases h with
  | spine s hframes =>
    subst hframes
    cases s with
    | none => exact ⟨.none, rfl, .spine .none rfl⟩
    | protocol p => exact ⟨_, editProtocol_inPlace rfl, .spine _ rfl⟩
    | interface p i => exact ⟨_, editInterface_inPlace _, .spine _ rfl⟩
    | message p i m => exact ⟨_, editMessage_inPlace rfl, .spine _ rfl⟩
    | argument p i m a => exact ⟨_, editArgument_inPlace _, .spine _ rfl⟩
    | enumeration p i e => exact ⟨_, editEnumeration_inPlace _, .spine _ rfl⟩
    | entry p i e x => exact ⟨_, editEntry_inPlace _, .spine _ rfl⟩
  | copyright text' p => exact ⟨_, rfl, .copyright text' p⟩
  | imported p => exact ⟨_, rfl, .imported p⟩
  | description summary' text' h =>
    exact ⟨_, rfl, .description summary' text' h⟩
  | skipped h => exact ⟨_, rfl, .skipped h⟩

theorem InPlace.closed_cons
    (s : Spine) (imports : List Import) (old : Option Protocol)
    (e : OpenElement) (es : List OpenElement) :
    (s.inPlace imports old (e :: es)).closed =
      (s.inPlace imports old es).leave e :=
  rfl

/-- The end of a declaration takes its mark away, and it stays written. -/
theorem Spine.exists_closed
    (s : Spine) {es : List OpenElement}
    (hstack : List.Forall₂ Remembers s.frames es) (imports : List Import)
    (old : Option Protocol) :
    ∃ b', (s.inPlace imports old es).closed = some b' ∧
      Mirrors (Reading.close ⟨imports, old, s.frames⟩) b' := by
  cases s with
  | none =>
    cases hstack
    exact ⟨_, rfl, .intro imports old (.spine .none rfl) .nil⟩
  | protocol p =>
    obtain _ | ⟨hhead, hrest⟩ := hstack
    cases hrest
    rw [InPlace.closed_cons, InPlace.leave, hhead.role]
    exact ⟨_, rfl, .intro imports (some p) (.spine .none rfl) .nil⟩
  | interface p i =>
    obtain _ | ⟨hhead, hrest⟩ := hstack
    rw [InPlace.closed_cons, InPlace.leave, hhead.role]
    have hstack := remembers_absorbed hrest (.interface i)
    exact ⟨_, rfl,
      .intro imports old (.spine (.protocol (p.addInterface i)) rfl) hstack⟩
  | message p i m =>
    obtain _ | ⟨hhead, hrest⟩ := hstack
    rw [InPlace.closed_cons, InPlace.leave, hhead.role]
    have hframes : (Spine.interface p (i.addMessage m)).frames =
        absorbed (.message m) [.interface i, .protocol p] := by
      rw [absorbed, absorb_message]
      rfl
    have hstack := remembers_absorbed hrest (.message m)
    exact ⟨_, rfl,
      .intro imports old (.spine (.interface p (i.addMessage m)) hframes)
      hstack⟩
  | argument p i m a =>
    obtain _ | ⟨hhead, hrest⟩ := hstack
    rw [InPlace.closed_cons, InPlace.leave, hhead.role]
    have hstack := remembers_absorbed hrest (.argument a)
    exact ⟨_, rfl,
      .intro imports old (.spine (.message p i (m.addArgument a)) rfl) hstack⟩
  | enumeration p i e =>
    obtain _ | ⟨hhead, hrest⟩ := hstack
    rw [InPlace.closed_cons, InPlace.leave, hhead.role]
    have hstack := remembers_absorbed hrest (.enumeration e)
    exact ⟨_, rfl,
      .intro imports old (.spine (.interface p (i.addEnumeration e)) rfl)
      hstack⟩
  | entry p i e x =>
    obtain _ | ⟨hhead, hrest⟩ := hstack
    rw [InPlace.closed_cons, InPlace.leave, hhead.role]
    have hstack := remembers_absorbed hrest (.entry x)
    exact ⟨_, rfl,
      .intro imports old (.spine (.enumeration p i (e.addEntry x)) rfl) hstack⟩

theorem Mirrors.closed {b : InPlace} (h : Mirrors r b) :
    ∃ b', b.closed = some b' ∧ Mirrors r.close b' := by
  obtain ⟨imports, old, hstanding, hstack⟩ := h
  cases hstanding with
  | spine s hframes =>
    subst hframes
    exact Spine.exists_closed _ hstack imports old
  | copyright text p =>
    obtain _ | ⟨hhead, hrest⟩ := hstack
    rw [InPlace.closed_cons, InPlace.leave, hhead.role,
      hhead.copyright text rfl]
    have hstack := remembers_absorbed hrest (.copyright text)
    exact ⟨_, rfl, .intro imports old (.spine (.protocol { p with
        copyright := Text.trim text }) rfl) hstack⟩
  | imported p =>
    obtain _ | ⟨hhead, hrest⟩ := hstack
    rw [InPlace.closed_cons, InPlace.leave, hhead.role]
    exact ⟨_, rfl, .intro imports old (.spine (.protocol p) rfl) hrest⟩
  | description summary text h =>
    obtain _ | ⟨hhead, hrest⟩ := hstack
    obtain ⟨hsummary, htext⟩ := hhead.description summary text rfl
    obtain ⟨s', hdescribe, hstanding'⟩ :=
      h.exists_describe hrest summary text imports old
    rw [InPlace.closed_cons, InPlace.leave, hhead.role, hsummary, htext,
      Reading.close_cons (by rintro ⟨⟩)]
    exact ⟨_, hdescribe, .intro imports old hstanding'
      (remembers_absorbed hrest _)⟩
  | skipped h =>
    obtain _ | ⟨hhead, hrest⟩ := hstack
    rw [InPlace.closed_cons, InPlace.leave, hhead.role,
      Reading.close_cons (by rintro ⟨⟩), absorbed_skipped]
    exact ⟨_, rfl, .intro imports old h hrest⟩

theorem Mirrors.step {b : InPlace} (h : Mirrors r b) (span : Span)
    (e : Markup.Event) :
    ∃ b', b.step span e = some (b', (r.step span e).2) ∧
      Mirrors (r.step span e).1 b' := by
  cases e with
  | opened name attributes => exact h.opened _
  | closed name =>
    obtain ⟨b', hclosed, hmirrors⟩ := h.closed
    exact ⟨b', by simp [InPlace.step, hclosed, Reading.step], hmirrors⟩
  | text data => exact ⟨b.text data, rfl, h.text data⟩
  | other => exact ⟨b, rfl, h⟩

/-- The second reader never writes without a mark, and finds what the first one
finds. -/
theorem Mirrors.follow {b : InPlace} (h : Mirrors r b)
    (es : List (Span × Markup.Event)) :
    ∃ b', b.follow es = some (b', (r.follow es).2) ∧
      Mirrors (r.follow es).1 b' := by
  induction es generalizing r b with
  | nil => exact ⟨b, rfl, h⟩
  | cons e es ih =>
    obtain ⟨b₁, hstep, hstepped⟩ := h.step e.1 e.2
    obtain ⟨b₂, hfollow, hfollowed⟩ := ih hstepped
    refine ⟨b₂, ?_, hfollowed⟩
    simp [InPlace.follow, hstep, hfollow, Reading.follow]

theorem mirrors_start : Mirrors {} {} :=
  .intro [] none (.spine .none rfl) .nil

theorem Mirrors.eq_of_stack
    {r : Reading} {b : InPlace} (h : Mirrors r b) (hstack : r.stack = []) :
    b = { imports := r.imports, protocol := r.protocol } := by
  obtain ⟨imports, old, hstanding, hremembers⟩ := h
  obtain rfl := hstack
  obtain rfl := hstanding.eq_none
  cases hremembers
  rfl

/-- Both readers stop at the same event, with the same finding, or come to
the end. -/
theorem Mirrors.exists_run {b : InPlace} (h : Mirrors r b) (file : UInt32)
    (limit : Int) (ending : Markup.Ending) (last : Nat) (span : Span)
    (start : Nat) (events : List Markup.Located) :
    ∃ result,
      b.run file limit ending last span start events =
        some (result, (r.run file limit ending last span start events).2) ∧
      Option.Rel Mirrors (r.run file limit ending last span start events).1
        result := by
  induction events generalizing r b span start with
  | nil =>
    rw [InPlace.run.eq_def, Reading.run.eq_def]
    dsimp only
    rw [h.coordinates]
    split
    next => exact ⟨_, rfl, .none⟩
    next =>
      cases ending with
      | complete => exact ⟨_, rfl, .some h⟩
      | failed fault line => exact ⟨_, rfl, .none⟩
  | cons e es ih =>
    rw [InPlace.run, Reading.run, h.coordinates]
    split
    next => exact ⟨_, rfl, .none⟩
    next =>
      obtain ⟨b', hstep, hstepped⟩ :=
        h.step (spanBetween file start e.stop) e.event
      obtain ⟨result, hrun, hrel⟩ :=
        ih hstepped (spanBetween file start e.stop) e.stop
      refine ⟨result, ?_, hrel⟩
      simp only [hstep, hrun, Option.bind_eq_bind, Option.bind_some]

/-- At the end of a complete text no element is open. -/
theorem stack_of_run
    (content : Text) (limit : Int) (file : UInt32)
    (h : (Reading.run file limit (Markup.stream content).ending
      (Markup.stream content).stop {} {} 0 (Markup.stream content).events).1 =
      some r) :
    r.stack = [] := by
  obtain ⟨hending, hlast, hfits⟩ := Reading.fits_of_run h
  obtain ⟨roots, hspells⟩ := exists_spells hending file
  rw [hending, Reading.run_complete hlast hfits, Reading.follow_roots hspells]
    at h
  cases h
  rfl

theorem read_eq_stackRead (limit : Int) (f : Source.File) :
    read limit f = stackRead limit f := by
  unfold read stackRead
  split
  next => rfl
  next =>
    obtain ⟨result, hrun, hrel⟩ := mirrors_start.exists_run f.id limit
      (Markup.stream f.content).ending (Markup.stream f.content).stop {} 0
      (Markup.stream f.content).events
    have hstack : ∀ r : Reading, _ → r.stack = [] :=
      fun r => stack_of_run f.content limit f.id
    dsimp only
    rw [hrun]
    generalize Reading.run f.id limit _ _ {} {} 0 _ = run at hrel hstack ⊢
    obtain ⟨ended, found⟩ := run
    cases hrel with
    | none => rfl
    | @some r b hmirrors =>
      have hread := hmirrors.eq_of_stack (hstack r rfl)
      cases hprotocol : r.protocol with
      | none => simp only [hread, hprotocol]
      | some p => simp only [hread, hprotocol]

/-- A mark is set exactly while an element of its kind is open. -/
structure Marks.SetFor (marks : Marks) (roles : List (Option Role)) : Prop where
  interface : marks.interface.isSome ↔ some .interface ∈ roles
  message : marks.message.isSome ↔ ∃ kind, some (.message kind) ∈ roles
  argument : marks.argument.isSome ↔ some .argument ∈ roles
  enumeration : marks.enumeration.isSome ↔ some .enumeration ∈ roles
  entry : marks.entry.isSome ↔ some .entry ∈ roles

theorem Marks.SetFor.cons
    {marks : Marks} {roles : List (Option Role)} (h : marks.SetFor roles)
    {role : Option Role}
    (hrole : role = none ∨ role = some .copyright ∨ role = some .imported ∨
      role = some .description) :
    marks.SetFor (role :: roles) := by
  obtain ⟨hinterface, hmessage, hargument, henumeration, hentry⟩ := h
  rcases hrole with rfl | rfl | rfl | rfl <;> constructor <;> simp_all

theorem Standing.setFor {s : Spine} (h : Standing fs s) :
    s.marks.SetFor (fs.map Frame.role?) := by
  have hspine : ∀ s : Spine, s.marks.SetFor (s.frames.map Frame.role?) := by
    intro s
    cases s <;> constructor <;> simp [Spine.marks, Spine.frames, Frame.role?]
  induction h with
  | spine s hframes => exact hframes ▸ hspine s
  | copyright text p =>
    exact (hspine (.protocol p)).cons (by simp [Frame.role?])
  | imported p => exact (hspine (.protocol p)).cons (by simp [Frame.role?])
  | description summary text h ih => exact ih.cons (by simp [Frame.role?])
  | skipped h ih => exact ih.cons (by simp [Frame.role?])

theorem map_role {es : List OpenElement} (h : List.Forall₂ Remembers fs es) :
    es.map OpenElement.role = fs.map Frame.role? := by
  induction h with
  | nil => rfl
  | cons hhead htail ih => rw [List.map_cons, List.map_cons, hhead.role, ih]

theorem Mirrors.setFor {b : InPlace} (h : Mirrors r b) :
    b.marks.SetFor (b.stack.map OpenElement.role) := by
  obtain ⟨imports, old, hstanding, hstack⟩ := h
  have hset := hstanding.setFor
  rw [← map_role hstack] at hset
  exact hset

end Document

end ProtocolCorpus
