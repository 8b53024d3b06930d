import ProtocolCorpus.Proofs.Elements

/-!
# Reading a document by its tree

What a protocol element declares, said by recursion on the tree: which child
elements count under which parent, where descriptions and short texts come from,
and which elements are passed over with one finding. The reader sees only one
event at a time; its open elements are shown to be, at every moment, what the
tree declares up to there.
-/

namespace ProtocolCorpus

namespace Document

variable {tag' tag : Attributes} {f : Frame} {r : Reading}
  {es : List (Span × Markup.Event)}
  {ns : List Node}

/-! ## What attributes say -/

namespace Attributes

/-- The value of an attribute, if it says something. -/
def said? (a : Attributes) (name : Text) : Option Text :=
  (a.get? name).filter fun v => !(Text.trim v).isEmpty

/-- The value of an attribute that says something, or nothing. -/
def said (a : Attributes) (name : Text) : Text :=
  (a.said? name).getD []

/-- The value of an attribute that is a positive number, or a default. -/
def positive (a : Attributes) (name : Text) (absent : Int) : Int :=
  (((a.get? name).bind fun v => Text.int64? (Text.trim v)).filter fun n =>
    1 ≤ n).getD absent

def holds (a : Attributes) (name : Text) : Bool :=
  a.get? name == some "true"

theorem fst_required (a : Attributes) (c : Coordinates) (name : Text) :
    (a.required c name).1 = a.said? name := by
  unfold required said?
  cases a.get? name with
  | none => rfl
  | some v =>
    cases h : (Text.trim v).isEmpty <;> simp [h, Option.filter_some]

theorem fst_version (a : Attributes) (c : Coordinates) (name : Text)
    (absent : Int) :
    (a.version c name absent).1 = a.positive name absent := by
  unfold version positive
  cases a.get? name with
  | none => rfl
  | some v =>
    cases h : Text.int64? (Text.trim v) with
    | none => simp [h]
    | some n =>
      by_cases hn : n < 1
      · simp [h, hn, Int.not_le.2 hn, Option.filter_some]
      · simp [h, hn, Int.not_lt.1 hn, Option.filter_some]

theorem fst_boolean (a : Attributes) (c : Coordinates) (name : Text) :
    (a.boolean c name).1 = a.holds name := by
  unfold boolean holds
  cases a.get? name with
  | none => rfl
  | some v =>
    by_cases htrue : v = "true"
    · simp [htrue]
    · by_cases hfalse : v = "false"
      · subst hfalse
        rfl
      · simp [htrue, hfalse]

theorem positive_of_said_eq_none
    {a : Attributes} {name : Text} (h : a.said? name = none) (absent : Int) :
    a.positive name absent = absent := by
  unfold said? at h
  unfold positive
  cases hv : a.get? name with
  | none => rfl
  | some v =>
    rw [hv, Option.filter_some] at h
    have hblank : Text.trim v = [] := by
      by_cases hempty : (Text.trim v).isEmpty
      · exact List.isEmpty_iff.1 hempty
      · simp [hempty] at h
    simp [hblank]
    rfl

end Attributes

/-! ## What the tree declares -/

def elements (name : Text) (ns : List Node) : List (Attributes × List Node) :=
  ns.filterMap fun
    | .element tag children =>
    if tag.element == name then some (tag, children) else none
    | .text _ => none

/-- The character data in a row of trees, without that inside of elements. -/
def directText (ns : List Node) : Text :=
  ns.flatMap fun
    | .element _ _ => []
    | .text data => data

def describe (e : Attributes × List Node) : Description :=
  ⟨e.1.getD "summary", Text.trim (directText e.2)⟩

def descriptionOf (ns : List Node) : Description :=
  ((elements "description" ns).getLast?.map describe).getD {}

def copyrightOf (ns : List Node) : Text :=
  ((elements "copyright" ns).getLast?.map fun e =>
    Text.trim (directText e.2)).getD []

/-- The short text that a description supplies. -/
def headline (d : Description) : Text :=
  if d.summary.isEmpty then firstLine d.text else d.summary

/-- A short text comes from the attribute, or else from the first description
that supplies one. -/
def summaryOf (tag : Attributes) (ns : List Node) : Text :=
  ((tag.getD "summary" :: (elements "description" ns).map fun e =>
    headline (describe e)).find?
    fun t => !t.isEmpty).getD []

def entryOf (tag : Attributes) (ns : List Node) : Entry where
  name := tag.said "name"
  value := ((tag.said? "value").bind entryValue?).getD 0
  since := tag.positive "since" 1
  summary := summaryOf tag ns

def enumerationOf (tag : Attributes) (ns : List Node) : Enumeration where
  name := tag.said "name"
  bitfield := tag.holds "bitfield"
  since := tag.positive "since" 1
  description := descriptionOf ns
  entries := (elements "entry" ns).map fun e => entryOf e.1 e.2
  span := tag.span

def argumentOf (tag : Attributes) (ns : List Node) : Argument where
  name := tag.said "name"
  kind := ((tag.said? "type").bind ArgumentKind.parse?).getD .invalid
  nullable := tag.holds "allow-null"
  summary := summaryOf tag ns
  interface := tag.getD "interface"
  enum := tag.getD "enum"
  span := tag.span

def messageOf (kind : MessageKind) (tag : Attributes)
    (ns : List Node) : Message where
  name := tag.said "name"
  kind := kind
  destructor := tag.get? "type" == some "destructor"
  since := tag.positive "since" 1
  deprecatedSince := tag.positive "deprecated-since" 0
  description := descriptionOf ns
  args := (elements "arg" ns).map fun e => argumentOf e.1 e.2
  span := tag.span

def interfaceOf (tag : Attributes) (ns : List Node) : Interface where
  name := tag.said "name"
  version := tag.positive "version" 1
  description := descriptionOf ns
  enums := (elements "enum" ns).map fun e => enumerationOf e.1 e.2
  requests := (elements "request" ns).map fun e => messageOf .request e.1 e.2
  events := (elements "event" ns).map fun e => messageOf .event e.1 e.2
  span := tag.span

def protocolOf (tag : Attributes) (ns : List Node) : Protocol where
  name := tag.said "name"
  copyright := copyrightOf ns
  description := descriptionOf ns
  interfaces := (elements "interface" ns).map fun e => interfaceOf e.1 e.2
  span := tag.span

def importsOf (ns : List Node) : List Import :=
  (elements "import" ns).filterMap fun e => (e.1.said? "name").map fun name =>
    ⟨name, e.1.span⟩

/-! ## Where elements may stand -/

namespace Role

theorem element_of_child?
    {k j : Role} {name : Text} (h : k.child? name = some j) :
    j.element = name := by
  have hfound := List.find?_some h
  exact eq_of_beq hfound

theorem mem_children_of_child?
    {k j : Role} {name : Text} (h : k.child? name = some j) :
    j ∈ k.children :=
  List.mem_of_find?_eq_some h

theorem stands_imported (tag : Attributes) :
    Role.imported.stands tag = (tag.said? "name").isSome := by
  rw [stands, Attributes.fst_required]

def found (k : Role) (tag : Attributes) (c : Coordinates) : List Diagnostic :=
  match k with
  | .protocol => (openProtocol tag c).2
  | .imported => (tag.required c "name").2
  | .interface => (openInterface tag c).2
  | .message kind => (openMessage kind tag c).2
  | .argument => (openArgument tag c).2
  | .enumeration => (openEnumeration tag c).2
  | .entry => (openEntry tag c).2
  | .copyright => []
  | .description => []

/-- What a finding inside an element is about. -/
def locate (k : Role) (tag : Attributes) (c : Coordinates) : Coordinates :=
  match k with
  | .protocol => { c with protocol := tag.said "name" }
  | .interface => { c with interface := tag.said "name" }
  | .message _ => { c with message := tag.said "name" }
  | .argument => { c with argument := tag.said "name" }
  | _ => c

end Role

mutual

/-- The findings in a tree inside an element. A tree whose root may not stand
there gives one warning, and an import without a name one error, whatever they
contain. -/
def Node.findings (parent : Role) (c : Coordinates) : Node → List Diagnostic
  | .text _ => []
  | .element tag children =>
    match parent.child? tag.element with
    | none => [misplaced parent tag c]
    | some k =>
      k.found tag c ++ if k.stands tag
        then findingsIn k (k.locate tag c) children else []

def findingsIn (parent : Role) (c : Coordinates) : List Node → List Diagnostic
  | [] => []
  | n :: ns => n.findings parent c ++ findingsIn parent c ns

end

/-! ## The open elements -/

/-- An open element after the trees that stand in it up to here. -/
def Role.frame (k : Role) (tag : Attributes) (ns : List Node) : Frame :=
  match k with
  | .protocol => .protocol (protocolOf tag ns)
  | .copyright => .copyright (directText ns)
  | .imported => if (tag.said? "name").isSome then .imported else .skipped
  | .interface => .interface (interfaceOf tag ns)
  | .message kind => .message (messageOf kind tag ns)
  | .argument => .argument (argumentOf tag ns)
  | .enumeration => .enumeration (enumerationOf tag ns)
  | .entry => .entry (entryOf tag ns)
  | .description => .description (tag.getD "summary") (directText ns)

@[simp]
theorem elements_append (name : Text) (ns ms : List Node) :
    elements name (ns ++ ms) = elements name ns ++ elements name ms :=
  List.filterMap_append ..

theorem elements_element_cons (name : Text) (tag : Attributes)
    (children ns : List Node) :
    elements name (.element tag children :: ns) =
      (if tag.element = name then [(tag, children)] else []) ++
      elements name ns := by
  by_cases h : tag.element = name <;> simp [elements, h]

@[simp]
theorem elements_element (name : Text) (tag : Attributes)
    (children : List Node) :
    elements name [.element tag children] = if tag.element = name
      then [(tag, children)] else [] := by
  rw [elements_element_cons, show elements name [] = [] from rfl,
    List.append_nil]

@[simp]
theorem elements_text (name data : Text) :
    elements name [.text data] = [] :=
  rfl

@[simp]
theorem directText_append (ns ms : List Node) :
    directText (ns ++ ms) = directText ns ++ directText ms :=
  List.flatMap_append ..

@[simp]
theorem directText_element (tag : Attributes) (children : List Node) :
    directText [.element tag children] = [] :=
  rfl

@[simp]
theorem directText_text (data : Text) :
    directText [.text data] = data :=
  List.append_nil data

theorem summaryOf_nil (tag : Attributes) :
    summaryOf tag [] = tag.getD "summary" := by
  unfold summaryOf
  rw [show elements "description" [] = [] from rfl, List.map_nil,
    List.find?_singleton]
  by_cases h : (tag.getD "summary").isEmpty
  · simp [List.isEmpty_iff.1 h]
  · simp [h]

/-- A further description supplies the short text if none before did. -/
theorem summaryOf_append (h : tag'.element = "description") (tag : Attributes)
    (ns children : List Node) :
    summaryOf tag (ns ++ [.element tag' children]) =
      summarize (summaryOf tag ns) (tag'.getD "summary")
      (Text.trim (directText children)) := by
  unfold summaryOf
  rw [elements_append, elements_element, if_pos h, List.map_append,
    ← List.cons_append, List.find?_append]
  generalize (tag.getD "summary" :: (elements "description" ns).map fun e =>
    headline (describe e)) = texts
  cases hfirst : texts.find? fun t => !t.isEmpty with
  | some t =>
    have ht : t.isEmpty = false := by simpa using List.find?_some hfirst
    simp [summarize, ht]
  | none =>
    have hheadline : summarize [] (tag'.getD "summary")
        (Text.trim (directText children)) =
        headline (describe (tag', children)) := by
      by_cases hs : (tag'.getD "summary").isEmpty <;>
        simp [summarize, headline, describe, hs]
    rw [Option.none_or, Option.getD_none, hheadline, List.map_singleton,
      List.find?_singleton]
    by_cases ht : (headline (describe (tag', children))).isEmpty
    · simp [List.isEmpty_iff.1 ht]
    · simp [ht]

/-- What may not stand in an element leaves the element as it is. -/
theorem Role.frame_append_misplaced {k : Role}
    (h : k.child? tag'.element = none) (tag : Attributes)
    (ns children : List Node) :
    k.frame tag (ns ++ [.element tag' children]) = k.frame tag ns := by
  have hne : ∀ j ∈ k.children, tag'.element ≠ j.element := by
    intro j hj heq
    have hfalse := List.find?_eq_none.1 h j hj
    simp [heq] at hfalse
  cases k <;> simp [Role.children, Role.element, MessageKind.name] at hne <;>
    simp [Role.frame, protocolOf, interfaceOf, messageOf, argumentOf,
    enumerationOf, entryOf, descriptionOf, copyrightOf, summaryOf, hne]

theorem Role.addText_frame (k : Role) (tag : Attributes) (ns : List Node)
    (data : Text) :
    (k.frame tag ns).addText data = k.frame tag (ns ++ [.text data]) := by
  cases k with
  | imported =>
    unfold Role.frame
    by_cases h : (tag.said? "name").isSome <;> simp [h, Frame.addText]
  | _ =>
    simp [Role.frame, protocolOf, interfaceOf, messageOf, argumentOf,
      enumerationOf, entryOf, descriptionOf, copyrightOf, summaryOf,
      Frame.addText]

/-- The end of an element adds to its parent what the tree declares there. -/
theorem Role.absorb_frame {k j : Role} (h : k.child? tag'.element = some j)
    (tag : Attributes) (ns children : List Node) :
    (k.frame tag ns).absorb (j.frame tag' children) =
      k.frame tag (ns ++ [.element tag' children]) := by
  have hname : tag'.element = j.element := (Role.element_of_child? h).symm
  have hmem : j ∈ k.children := Role.mem_children_of_child? h
  cases k with
  | protocol =>
    simp only [Role.children, List.mem_cons, List.not_mem_nil, or_false] at hmem
    rcases hmem with rfl | rfl | rfl | rfl
    · simp +decide [Role.frame, Frame.absorb, protocolOf, descriptionOf,
        copyrightOf, hname, Role.element]
    · unfold Role.frame
      by_cases hsaid : (tag'.said? "name").isSome <;>
        simp +decide [hsaid, Frame.absorb, protocolOf, descriptionOf,
        copyrightOf, hname, Role.element]
    · simp +decide [Role.frame, Frame.absorb, protocolOf, descriptionOf,
        copyrightOf, hname, Role.element]
    · simp +decide [Role.frame, Frame.absorb, protocolOf, descriptionOf,
        copyrightOf, hname, Role.element, describe]
  | interface =>
    simp only [Role.children, List.mem_cons, List.not_mem_nil, or_false] at hmem
    rcases hmem with rfl | rfl | rfl | rfl <;>
      simp +decide [Role.frame, Frame.absorb, interfaceOf, messageOf,
      descriptionOf, hname, Role.element, MessageKind.name, describe]
  | message kind =>
    simp only [Role.children, List.mem_cons, List.not_mem_nil, or_false] at hmem
    rcases hmem with rfl | rfl <;>
      simp +decide [Role.frame, Frame.absorb, messageOf, descriptionOf, hname,
      Role.element, describe]
  | enumeration =>
    simp only [Role.children, List.mem_cons, List.not_mem_nil, or_false] at hmem
    rcases hmem with rfl | rfl <;>
      simp +decide [Role.frame, Frame.absorb, enumerationOf, descriptionOf,
      hname, Role.element, describe]
  | argument =>
    obtain rfl := List.mem_singleton.1 hmem
    simp [Role.frame, Frame.absorb, argumentOf, summaryOf_append hname]
  | entry =>
    obtain rfl := List.mem_singleton.1 hmem
    simp [Role.frame, Frame.absorb, entryOf, summaryOf_append hname]
  | imported =>
    obtain rfl := List.mem_singleton.1 hmem
    unfold Role.frame
    by_cases hsaid : (tag.said? "name").isSome <;> simp [hsaid, Frame.absorb]
  | copyright =>
    obtain rfl := List.mem_singleton.1 hmem
    simp [Role.frame, Frame.absorb]
  | description =>
    obtain rfl := List.mem_singleton.1 hmem
    simp [Role.frame, Frame.absorb]

/-! ## Opening tags -/

def Frame.role? : Frame → Option Role
  | .protocol _ => some .protocol
  | .copyright _ => some .copyright
  | .imported => some .imported
  | .interface _ => some .interface
  | .message m => some (.message m.kind)
  | .argument _ => some .argument
  | .enumeration _ => some .enumeration
  | .entry _ => some .entry
  | .description _ _ => some .description
  | .skipped => none

def Role.meaning : Role → Meaning
  | .protocol => .protocol
  | .copyright => .copyright
  | .imported => .imported
  | .interface => .interface
  | .message kind => .message kind
  | .argument => .argument
  | .enumeration => .enumeration
  | .entry => .entry
  | .description => .description

theorem meaning_of_role_eq_none (h : f.role? = none) (name : Text) :
    meaning (some f) name = .hidden := by
  cases f with
  | skipped => rfl
  | _ => cases h

theorem find?_element_cons (j : Role) (js : List Role) (name : Text) :
    (j :: js).find? (fun i => i.element == name) =
      if name == j.element then some j
      else js.find? fun i => i.element == name := by
  by_cases h : name = j.element
  · simp [h]
  · simp [h, Ne.symm h]

/-- The reader knows the grammar. -/
theorem meaning_of_role_eq_some {k : Role} (h : f.role? = some k)
    (name : Text) :
    meaning (some f) name =
      ((k.child? name).map Role.meaning).getD .unexpected := by
  cases f <;> cases h <;>
    simp only [meaning, meaning.general, Role.child?, Role.children,
    find?_element_cons, List.find?_nil, apply_ite (Option.map Role.meaning),
    apply_ite (Option.getD · Meaning.unexpected)] <;>
    rfl

theorem Frame.element_of_role_eq_some {k : Role} (h : f.role? = some k) :
    f.element = k.element := by
  cases f <;> cases h <;> rfl

theorem Role.role?_frame {k : Role} (h : k.stands tag = true) (ns : List Node) :
    (k.frame tag ns).role? = some k := by
  cases k with
  | imported =>
    rw [stands_imported] at h
    simp [Role.frame, h, Frame.role?]
  | _ => rfl

theorem Role.locate_frame (k : Role) (tag : Attributes) (ns : List Node)
    (c : Coordinates) :
    (k.frame tag ns).locate c = k.locate tag c := by
  cases k with
  | imported =>
    unfold Role.frame
    by_cases h : (tag.said? "name").isSome <;>
      simp [h, Frame.locate, Role.locate]
  | _ => rfl

theorem Role.frame_of_not_stands {k : Role} (h : k.stands tag = false)
    (ns : List Node) :
    k.frame tag ns = .skipped := by
  cases k with
  | imported =>
    rw [stands_imported] at h
    simp [Role.frame, h]
  | _ => cases h

def Role.imports (k : Role) (tag : Attributes) : List Import :=
  match k with
  | .imported =>
    ((tag.said? "name").map fun name => (⟨name, tag.span⟩ : Import)).toList
  | _ => []

theorem fst_openProtocol (tag : Attributes) (c : Coordinates) :
    (openProtocol tag c).1 = protocolOf tag [] := by
  simp only [openProtocol, Attributes.fst_required]
  rfl

theorem fst_openInterface (tag : Attributes) (c : Coordinates) :
    (openInterface tag c).1 = interfaceOf tag [] := by
  simp only [openInterface, Attributes.fst_required, apply_ite Prod.fst,
    Attributes.fst_version]
  by_cases h : (tag.said? "version").isSome
  · rw [if_pos h]
    rfl
  · rw [if_neg h, ← Attributes.positive_of_said_eq_none
      (Option.not_isSome_iff_eq_none.1 h) 1]
    rfl

theorem fst_openMessage (kind : MessageKind) (tag : Attributes)
    (c : Coordinates) :
    (openMessage kind tag c).1 = messageOf kind tag [] := by
  simp only [openMessage, Attributes.fst_required, Attributes.fst_version]
  rfl

theorem fst_openArgument (tag : Attributes) (c : Coordinates) :
    (openArgument tag c).1 = argumentOf tag [] := by
  simp only [openArgument, Attributes.fst_required, Attributes.fst_boolean,
    ← summaryOf_nil]
  rfl

theorem fst_openEnumeration (tag : Attributes) (c : Coordinates) :
    (openEnumeration tag c).1 = enumerationOf tag [] := by
  simp only [openEnumeration, Attributes.fst_required, Attributes.fst_boolean,
    Attributes.fst_version]
  rfl

theorem fst_openEntry (tag : Attributes) (c : Coordinates) :
    (openEntry tag c).1 = entryOf tag [] := by
  simp only [openEntry, Attributes.fst_required, Attributes.fst_version,
    ← summaryOf_nil]
  rfl

/-- An element that may stand where it does is opened as it is, and declares
its import at once. -/
theorem Reading.opened_of_child {k j : Role} (hhead : r.stack.head? = some f)
    (hrole : f.role? = some k) (hchild : k.child? tag.element = some j) :
    r.opened tag =
      ({ r with
          imports := r.imports ++ j.imports tag, stack :=
            j.frame tag [] :: r.stack },
        j.found tag r.coordinates) := by
  have hmeaning : meaning r.stack.head? tag.element = j.meaning := by
    rw [hhead, meaning_of_role_eq_some hrole, hchild]
    rfl
  unfold Reading.opened
  rw [hmeaning]
  cases j with
  | protocol =>
    simp [Role.meaning, Role.imports, Role.frame, Role.found,
      ← fst_openProtocol tag r.coordinates]
  | copyright =>
    simp [Role.meaning, Role.imports, Role.frame, Role.found, directText]
  | imported =>
    have hname := Attributes.fst_required tag r.coordinates "name"
    cases hrequired : tag.required r.coordinates "name" with
    | mk name found =>
      rw [hrequired] at hname
      cases name <;>
        simp [Role.meaning, Role.imports, Role.frame, Role.found, hrequired,
        ← hname]
  | interface =>
    simp [Role.meaning, Role.imports, Role.frame, Role.found,
      ← fst_openInterface tag r.coordinates]
  | message kind =>
    simp [Role.meaning, Role.imports, Role.frame, Role.found,
      ← fst_openMessage kind tag r.coordinates]
  | argument =>
    simp [Role.meaning, Role.imports, Role.frame, Role.found,
      ← fst_openArgument tag r.coordinates]
  | enumeration =>
    simp [Role.meaning, Role.imports, Role.frame, Role.found,
      ← fst_openEnumeration tag r.coordinates]
  | entry =>
    simp [Role.meaning, Role.imports, Role.frame, Role.found,
      ← fst_openEntry tag r.coordinates]
  | description =>
    simp [Role.meaning, Role.imports, Role.frame, Role.found, directText]

theorem Reading.opened_of_misplaced {k : Role} (hhead : r.stack.head? = some f)
    (hrole : f.role? = some k) (hchild : k.child? tag.element = none) :
    r.opened tag =
      ({ r with
          stack := .skipped :: r.stack }, [misplaced k tag r.coordinates]) := by
  have hmeaning : meaning r.stack.head? tag.element = .unexpected := by
    rw [hhead, meaning_of_role_eq_some hrole, hchild]
    rfl
  unfold Reading.opened
  rw [hmeaning, hhead]
  simp [unexpectedElement, misplaced, Frame.element_of_role_eq_some hrole]

theorem Reading.opened_of_hidden (hhead : r.stack.head? = some f)
    (hrole : f.role? = none) (tag : Attributes) :
    r.opened tag = ({ r with stack := .skipped :: r.stack }, []) := by
  unfold Reading.opened
  rw [hhead, meaning_of_role_eq_none hrole]

/-! ## Trees inside an element -/

/-- The imports that the trees inside an element declare. -/
def Role.importsIn (k : Role) (ns : List Node) : List Import :=
  if k = .protocol then importsOf ns else []

theorem Role.imports_of_ne
    {j : Role} (h : j.element ≠ "import") (tag : Attributes) :
    j.imports tag = [] := by
  cases j with
  | imported => exact absurd rfl h
  | _ => rfl

theorem importsOf_element_cons (tag : Attributes) (children ns : List Node) :
    importsOf (.element tag children :: ns) =
      (if tag.element = "import" then Role.imported.imports tag else []) ++
      importsOf ns := by
  rw [importsOf, elements_element_cons, List.filterMap_append]
  by_cases h : tag.element = "import"
  · cases hname : tag.said? "name" <;> simp [h, hname, Role.imports, importsOf]
  · simp [h, importsOf]

theorem Role.importsIn_element_cons (k : Role) (tag : Attributes)
    (children ns : List Node) :
    k.importsIn (.element tag children :: ns) =
      ((k.child? tag.element).map fun j => j.imports tag).getD [] ++
      k.importsIn ns := by
  unfold Role.importsIn
  by_cases hk : k = .protocol
  · subst hk
    rw [if_pos rfl, if_pos rfl, importsOf_element_cons]
    by_cases himport : tag.element = "import"
    · rw [if_pos himport, himport]
      rfl
    · rw [if_neg himport]
      cases hchild : Role.protocol.child? tag.element with
      | none => rfl
      | some j =>
        simp [Role.imports_of_ne (Role.element_of_child? hchild ▸ himport)]
  · rw [if_neg hk, if_neg hk]
    cases hchild : k.child? tag.element with
    | none => rfl
    | some j =>
      have hmem : j ∈ k.children := Role.mem_children_of_child? hchild
      have himport : j ≠ .imported := by
        rintro rfl
        cases k <;> simp [Role.children] at hmem hk
      cases j with
      | imported => exact absurd rfl himport
      | _ => rfl

theorem Role.importsIn_text_cons (k : Role) (data : Text) (ns : List Node) :
    k.importsIn (.text data :: ns) = k.importsIn ns :=
  rfl

theorem Role.importsIn_nil (k : Role) :
    k.importsIn [] = [] :=
  ite_self []

theorem Role.importsIn_of_mem_children
    {k j : Role} (h : j ∈ k.children) (ns : List Node) :
    j.importsIn ns = [] := by
  have hne : j ≠ .protocol := by
    rintro rfl
    cases k <;> simp [Role.children] at h
  rw [Role.importsIn, if_neg hne]

theorem Reading.follow_element {r₁ r₂ : Reading} {span : Span}
    {name : Markup.Name} {attributes : List Markup.Attribute}
    {inner : List (Span × Markup.Event)} {found more : List Diagnostic}
    (htag : ⟨name.localName, attributes, span⟩ = tag)
    (hopened : r.opened tag = (r₁, found))
    (hinner : r₁.follow inner = (r₂, more)) (span' : Span) (name' : Markup.Name)
    (es : List (Span × Markup.Event)) :
    r.follow
      ((span, .opened name attributes) ::
      (inner ++ (span', .closed name') :: es)) =
      ((r₂.close.follow es).1, found ++ (more ++ (r₂.close.follow es).2)) := by
  simp [Reading.follow, Reading.step, htag, hopened, Reading.follow_append,
    hinner]

theorem Reading.close_cons_cons
    (imports : List Import) (protocol : Option Protocol) (child parent : Frame)
    (rest : List Frame) :
    Reading.close ⟨imports, protocol, child :: parent :: rest⟩ =
      ⟨imports, protocol, parent.absorb child :: rest⟩ := by
  simp [Reading.close]

theorem absorb_skipped (f : Frame) :
    f.absorb .skipped = f := by
  cases f <;> rfl

/-- Nothing inside an element that is passed over has an effect. -/
theorem Reading.follow_skipped (h : Spells es ns) (imports : List Import)
    (protocol : Option Protocol) (rest : List Frame) :
    Reading.follow ⟨imports, protocol, .skipped :: rest⟩ es =
      (⟨imports, protocol, .skipped :: rest⟩, []) := by
  induction h generalizing rest with
  | nil => rfl
  | other span hes ih => simp [Reading.follow, Reading.step, ih]
  | text span data hes ih =>
    simp [Reading.follow, Reading.step, Reading.text, Frame.addText, ih]
  | element span span' name name' attributes hinner hes ihinner ihes =>
    rw [Reading.follow_element rfl (Reading.opened_of_hidden rfl rfl _)
      (ihinner _), Reading.close_cons_cons, absorb_skipped, ihes]
    rfl

/-- The events of the trees in an open element make it what the tree declares.
-/
theorem Reading.follow_frame (h : Spells es ns) {k : Role}
    (hstands : k.stands tag = true) (done : List Node) (imports : List Import)
    (protocol : Option Protocol) (rest : List Frame) :
    Reading.follow ⟨imports, protocol, k.frame tag done :: rest⟩ es =
      (⟨imports ++ k.importsIn ns, protocol, k.frame tag (done ++ ns) :: rest⟩,
        findingsIn k (k.locate tag (Reading.coordinates ⟨[], protocol, rest⟩))
        ns) := by
  -- the element on top is what it is after the trees in `done`; the induction
  -- moves trees there
  induction h generalizing k tag done imports rest with
  | nil => simp [Reading.follow, Role.importsIn_nil, findingsIn]
  | other span hes ih => simp [Reading.follow, Reading.step, ih hstands]
  | text span data hes ih =>
    simp [Reading.follow, Reading.step, Reading.text, Role.addText_frame,
      ih hstands, findingsIn, Node.findings, Role.importsIn_text_cons]
  | @element inner es children ns span span' name name' attributes hinner hes
    ihinner ihes =>
    generalize htag : (⟨name.localName, attributes, span⟩ : Attributes) = tag'
    have hcoordinates : ∀ imports',
        Reading.coordinates ⟨imports', protocol, k.frame tag done :: rest⟩ =
        k.locate tag (Reading.coordinates ⟨[], protocol, rest⟩) :=
      fun _ => k.locate_frame tag done _
    have hrole := Role.role?_frame hstands done
    rw [findingsIn, Node.findings, Role.importsIn_element_cons]
    cases hchild : k.child? tag'.element with
    | none =>
      have hopened := Reading.opened_of_misplaced
        (r := ⟨imports, protocol, k.frame tag done :: rest⟩) rfl hrole hchild
      have hinside := Reading.follow_skipped hinner imports protocol
        (k.frame tag done :: rest)
      have hsame := Role.frame_append_misplaced hchild tag done children
      rw [Reading.follow_element htag hopened hinside, Reading.close_cons_cons,
        absorb_skipped, hcoordinates, ← hsame, ihes hstands]
      simp
    | some j =>
      have hopened := Reading.opened_of_child
        (r := ⟨imports, protocol, k.frame tag done :: rest⟩) rfl hrole hchild
      rw [hcoordinates] at hopened
      by_cases hj : j.stands tag'
      · have hinside :=
          ihinner hj [] (imports ++ j.imports tag') (k.frame tag done :: rest)
        have hnone :=
          Role.importsIn_of_mem_children
            (Role.mem_children_of_child? hchild) children
        rw [hcoordinates, hnone, List.append_nil, List.nil_append] at hinside
        rw [Reading.follow_element htag hopened hinside,
          Reading.close_cons_cons, Role.absorb_frame hchild, ihes hstands]
        simp [hj]
      · have hskipped : ∀ ns', j.frame tag' ns' = .skipped :=
          j.frame_of_not_stands (by simpa using hj)
        have hinside :=
          Reading.follow_skipped hinner (imports ++ j.imports tag') protocol
            (k.frame tag done :: rest)
        rw [hskipped] at hopened
        rw [Reading.follow_element htag hopened hinside,
          Reading.close_cons_cons, ← hskipped children,
          Role.absorb_frame hchild, ihes hstands]
        simp [hj]

/-! ## Whole documents -/

/-- The findings in the trees at the top, behind a protocol with a name. -/
def rootFindings (name : Text) : List Node → List Diagnostic
  | [] => []
  | .text _ :: ns => rootFindings name ns
  | .element tag children :: ns =>
    if tag.element = "protocol" then
      Role.protocol.found tag { protocol := name }
        ++ (findingsIn .protocol { protocol := tag.said "name" } children ++
        rootFindings (tag.said "name") ns)
    else rootless tag { protocol := name } :: rootFindings name ns

theorem Reading.opened_root (h : tag.element = "protocol")
    (imports : List Import) (protocol : Option Protocol) :
    Reading.opened ⟨imports, protocol, []⟩ tag =
      (⟨imports, protocol, [Role.protocol.frame tag []]⟩,
        Role.protocol.found tag
        { protocol := (protocol.map Protocol.name).getD [] }) := by
  have hmeaning : meaning none tag.element = .protocol := by
    rw [h]
    rfl
  simp [Reading.opened, hmeaning, Role.frame, Role.found, fst_openProtocol,
    Reading.coordinates]

theorem Reading.opened_rootless (h : tag.element ≠ "protocol")
    (imports : List Import) (protocol : Option Protocol) :
    Reading.opened ⟨imports, protocol, []⟩ tag =
      (⟨imports, protocol, [.skipped]⟩,
      [rootless tag { protocol := (protocol.map Protocol.name).getD [] }]) := by
  simp [Reading.opened, meaning, h, unexpectedElement, rootless,
    Reading.coordinates]

/-- The last protocol element at the top counts, and the imports of all. -/
theorem Reading.follow_roots (h : Spells es ns) (imports : List Import)
    (protocol : Option Protocol) :
    Reading.follow ⟨imports, protocol, []⟩ es =
      (⟨imports ++ (elements "protocol" ns).flatMap fun e => importsOf e.2,
          ((elements "protocol" ns).getLast?.map fun e => protocolOf e.1 e.2).or
          protocol, []⟩,
        rootFindings ((protocol.map Protocol.name).getD []) ns) := by
  induction h generalizing imports protocol with
  | nil => simp [Reading.follow, elements, rootFindings]
  | other span hes ih => simp [Reading.follow, Reading.step, ih]
  | text span data hes ih =>
    simp [Reading.follow, Reading.step, Reading.text, ih, rootFindings,
      elements]
  | @element inner es children ns span span' name name' attributes hinner hes
    ihinner ihes =>
    generalize htag : (⟨name.localName, attributes, span⟩ : Attributes) = tag
    rw [rootFindings, elements_element_cons]
    by_cases hprotocol : tag.element = "protocol"
    · have hopened := Reading.opened_root hprotocol imports protocol
      have hstands : Role.protocol.stands tag = true := rfl
      have hinside := Reading.follow_frame hinner hstands [] imports protocol []
      have hclose :
          Reading.close ⟨imports ++ Role.protocol.importsIn children, protocol,
          [Role.protocol.frame tag ([] ++ children)]⟩ =
            ⟨imports ++ importsOf children, some (protocolOf tag children),
            []⟩ := rfl
      rw [Reading.follow_element htag hopened hinside, hclose, ihes,
        if_pos hprotocol, if_pos hprotocol, List.singleton_append,
        List.flatMap_cons, List.append_assoc, List.getLast?_cons]
      cases (elements "protocol" ns).getLast? <;> rfl
    · have hopened := Reading.opened_rootless hprotocol imports protocol
      have hclose : Reading.close ⟨imports, protocol, [.skipped]⟩ =
        ⟨imports, protocol, []⟩ := rfl
      rw [Reading.follow_element htag hopened
        (Reading.follow_skipped hinner ..), hclose, ihes]
      simp [hprotocol]

end Document

end ProtocolCorpus
