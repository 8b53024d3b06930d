import Mathlib.Data.List.Flatten
import Mathlib.Data.List.Perm.Basic
import ProtocolCorpus.Proofs.Roots
import ProtocolCorpus.Proofs.StartTags

/-!
# The spans of the elements of a document

A document keeps a span with its protocol, with every import, interface,
enumeration and message, and with every argument. Each is the span of one start
tag, and no start tag is used twice. So the spans of a document are exact,
disjoint and in document order because those of the start tags are, and every
finding points at a start tag too.
-/

namespace ProtocolCorpus

/-! ## What a document keeps -/

/-- An element that a document keeps: which element it is, what it is called and
where it was read. -/
structure Stored where
  element : Text
  name : Text
  span : Span
  deriving DecidableEq

def Import.stored (i : Import) : Stored :=
  ⟨"import", i.name, i.span⟩

def Argument.stored (a : Argument) : Stored :=
  ⟨"arg", a.name, a.span⟩

def Enumeration.stored (e : Enumeration) : Stored :=
  ⟨"enum", e.name, e.span⟩

def Message.stored (m : Message) : List Stored :=
  ⟨m.kind.name, m.name, m.span⟩ :: m.wireArgs.map Argument.stored

def Interface.stored (i : Interface) : List Stored :=
  ⟨"interface", i.name, i.span⟩ ::
    (i.enums.map Enumeration.stored ++ i.messages.flatMap Message.stored)

def Protocol.stored (p : Protocol) : List Stored :=
  ⟨"protocol", p.name, p.span⟩ :: p.interfaces.flatMap Interface.stored

def Document.stored (d : Document) : List Stored :=
  d.imports.map Import.stored ++ (d.protocol.map Protocol.stored).getD []

/-- The spans along each list of an interface, behind that of the element the
list belongs to. -/
def Interface.rows (i : Interface) : List (List Span) :=
  (i.span :: i.enums.map Enumeration.span) ::
    (i.span :: i.requests.map Message.span) ::
    (i.span :: i.events.map Message.span) :: i.messages.map fun m =>
    m.span :: m.wireArgs.map Argument.span

def Protocol.rows (p : Protocol) : List (List Span) :=
  (p.span :: p.interfaces.map Interface.span) ::
    p.interfaces.flatMap Interface.rows

/-- The spans along each list of a document. -/
def Document.rows (d : Document) : List (List Span) :=
  d.imports.map Import.span :: (d.protocol.map Protocol.rows).getD []

namespace Document

variable {name : Text} {e last : Attributes × List Node}
  {earlier : List (Attributes × List Node)}
  {row : List Span}

/-! ## Choosing start tags of a tree -/

def Attributes.stored (tag : Attributes) : Stored :=
  ⟨tag.element, tag.said "name", tag.span⟩

/-- Which start tags of an element to take. -/
abbrev Choice := Attributes × List Node → List Attributes

def elementTags : Choice :=
  fun e => e.1 :: tagsIn e.2

/-- What is chosen of a tree whose root has the name. -/
def Node.pick (name : Text) (choose : Choice) : Node → List Attributes
  | .element tag children =>
  if tag.element = name then choose (tag, children) else []
  | .text _ => []

def Node.chosen (choices : List (Text × Choice)) (n : Node) : List Attributes :=
  choices.flatMap fun c => n.pick c.1 c.2

/-- The start tag of an element with what is chosen of the trees in it. -/
def withParts (choices : List (Text × Choice)) : Choice :=
  fun e => e.1 :: e.2.flatMap (Node.chosen choices)

theorem element_of_mem_elements {ns : List Node} (h : e ∈ elements name ns) :
    e.1.element = name := by
  obtain ⟨n, -, hn⟩ := List.mem_filterMap.1 h
  cases n with
  | element tag children =>
    dsimp only at hn
    split_ifs at hn with hname
    cases hn
    exact eq_of_beq hname
  | text data => cases hn

theorem flatMap_pick (name : Text) (choose : Choice) (ns : List Node) :
    ns.flatMap (Node.pick name choose) = (elements name ns).flatMap choose := by
  induction ns with
  | nil => rfl
  | cons n ns ih =>
    cases n with
    | element tag children =>
      rw [List.flatMap_cons, ih, elements_element_cons, List.flatMap_append,
        Node.pick]
      split_ifs <;> simp
    | text data => exact ih

theorem Node.pick_sublist
    {choose : Choice} (hchoose : ∀ e, (choose e).Sublist (elementTags e))
    (name : Text) (n : Node) :
    (n.pick name choose).Sublist n.tags := by
  cases n with
  | element tag children =>
    rw [Node.pick, Node.tags]
    split_ifs
    · exact hchoose (tag, children)
    · exact List.nil_sublist _
  | text data => exact List.nil_sublist _

theorem flatMap_elements_sublist (name : Text) (ns : List Node) :
    ((elements name ns).flatMap elementTags).Sublist (tagsIn ns) := by
  rw [← flatMap_pick, tagsIn_eq_flatMap]
  exact .flatMap_right ns fun n _ => n.pick_sublist (fun _ => .refl _) name

theorem Node.chosen_of_not_mem
    {choices : List (Text × Choice)} {tag : Attributes}
    (h : tag.element ∉ choices.map Prod.fst) (children : List Node) :
    Node.chosen choices (.element tag children) = [] := by
  rw [Node.chosen, List.flatMap_eq_nil_iff]
  intro c hc
  rw [Node.pick, if_neg]
  rintro heq
  exact h (heq ▸ List.mem_map_of_mem hc)

theorem Node.chosen_sublist
    {choices : List (Text × Choice)} (hnames : (choices.map Prod.fst).Nodup)
    (hchoices : ∀ c ∈ choices, ∀ e, (c.2 e).Sublist (elementTags e))
    (n : Node) :
    (n.chosen choices).Sublist n.tags := by
  cases n with
  | text data =>
    have hnone : Node.chosen choices (.text data) = [] :=
      List.flatMap_eq_nil_iff.2 fun _ _ => rfl
    rw [hnone]
    exact List.nil_sublist _
  | element tag children =>
    induction choices with
    | nil => exact List.nil_sublist _
    | cons c choices ih =>
      rw [List.map_cons, List.nodup_cons] at hnames
      rw [List.forall_mem_cons] at hchoices
      rw [Node.chosen, List.flatMap_cons]
      by_cases hname : tag.element = c.1
      · have hrest := Node.chosen_of_not_mem (hname ▸ hnames.1) children
        rw [Node.chosen] at hrest
        rw [hrest, List.append_nil]
        exact Node.pick_sublist hchoices.1 c.1 _
      · rw [Node.pick, if_neg hname, List.nil_append]
        exact ih hnames.2 hchoices.2

theorem withParts_sublist
    {choices : List (Text × Choice)} (hnames : (choices.map Prod.fst).Nodup)
    (hchoices : ∀ c ∈ choices, ∀ e, (c.2 e).Sublist (elementTags e))
    (e : Attributes × List Node) :
    (withParts choices e).Sublist (elementTags e) := by
  rw [withParts, elementTags, tagsIn_eq_flatMap]
  exact (List.Sublist.flatMap_right e.2 fun n _ =>
    n.chosen_sublist hnames hchoices).cons_cons e.1

/-- What is chosen in document order is what is chosen name by name. -/
theorem flatMap_chosen_perm (choices : List (Text × Choice)) (ns : List Node) :
    (ns.flatMap (Node.chosen choices)).Perm
    (choices.flatMap fun c => (elements c.1 ns).flatMap c.2) := by
  induction choices with
  | nil =>
    have hnone : ns.flatMap (Node.chosen []) = [] :=
      List.flatMap_eq_nil_iff.2 fun _ _ => rfl
    rw [hnone]
    exact .nil
  | cons c choices ih =>
    rw [List.flatMap_cons, ← flatMap_pick]
    exact (List.flatMap_append_perm ns (Node.pick c.1 c.2)
      (Node.chosen choices)).symm.trans (ih.append_left _)

theorem stored_withParts_perm (choices : List (Text × Choice))
    (e : Attributes × List Node) :
    ((withParts choices e).map Attributes.stored).Perm
      (e.1.stored :: choices.flatMap fun c =>
      ((elements c.1 e.2).flatMap c.2).map Attributes.stored) := by
  rw [withParts, List.map_cons, ← List.map_flatMap]
  exact .cons _ ((flatMap_chosen_perm choices e.2).map _)

/-- What stands at each name may be replaced by what it is known to be a
rearrangement of. -/
theorem stored_flatMap_perm {choose : Choice}
    {stored : Attributes × List Node → List Stored}
    (h : ∀ e, e.1.element = name →
      ((choose e).map Attributes.stored).Perm (stored e))
    (ns : List Node) :
    (((elements name ns).flatMap choose).map Attributes.stored).Perm
      ((elements name ns).flatMap stored) := by
  rw [List.map_flatMap]
  exact .flatMap_left _ fun e he => h e (element_of_mem_elements he)

/-! ## The start tags that a document keeps -/

def leafTags : Choice :=
  fun e => [e.1]

def messageTags : Choice :=
  withParts [("arg", leafTags)]

def interfaceTags : Choice :=
  withParts [("enum", leafTags), ("request", messageTags),
    ("event", messageTags)]

def importTags : Choice :=
  fun e => if (e.1.said? "name").isSome then leafTags e else []

def protocolTags : Choice :=
  withParts [("import", importTags), ("interface", interfaceTags)]

theorem leafTags_sublist (e : Attributes × List Node) :
    (leafTags e).Sublist (elementTags e) :=
  (List.nil_sublist _).cons_cons e.1

theorem messageTags_sublist (e : Attributes × List Node) :
    (messageTags e).Sublist (elementTags e) :=
  withParts_sublist (by simp) (by simp [leafTags_sublist]) e

theorem interfaceTags_sublist (e : Attributes × List Node) :
    (interfaceTags e).Sublist (elementTags e) :=
  withParts_sublist (by decide)
    (by simp [leafTags_sublist, messageTags_sublist]) e

theorem importTags_sublist (e : Attributes × List Node) :
    (importTags e).Sublist (elementTags e) := by
  rw [importTags]
  split_ifs
  · exact leafTags_sublist e
  · exact List.nil_sublist _

theorem protocolTags_sublist (e : Attributes × List Node) :
    (protocolTags e).Sublist (elementTags e) :=
  withParts_sublist (by decide)
    (by simp [importTags_sublist, interfaceTags_sublist]) e

theorem stored_leafTags {stored : Attributes × List Node → Stored}
    (h : ∀ e, e.1.element = name → e.1.stored = stored e) (ns : List Node) :
    ((elements name ns).flatMap leafTags).map Attributes.stored =
      (elements name ns).map stored := by
  rw [List.map_flatMap, List.map_eq_flatMap]
  exact List.flatMap_congr fun e he =>
    congrArg (fun x => [x]) (h e (element_of_mem_elements he))

theorem stored_messageTags_perm {kind : MessageKind}
    (h : e.1.element = kind.name) :
    ((messageTags e).map Attributes.stored).Perm
      (messageOf kind e.1 e.2).stored := by
  have harguments :
      ((elements "arg" e.2).flatMap leafTags).map Attributes.stored =
      (messageOf kind e.1 e.2).wireArgs.map Argument.stored := by
    have hwire : (messageOf kind e.1 e.2).wireArgs =
      (elements "arg" e.2).map fun a => argumentOf a.1 a.2 := rfl
    rw [hwire, List.map_map]
    exact stored_leafTags (fun a ha => by rw [Attributes.stored, ha]; rfl) e.2
  have hparts := stored_withParts_perm [("arg", leafTags)] e
  rwa [List.flatMap_singleton, harguments, Attributes.stored, h] at hparts

theorem stored_interfaceTags_perm (h : e.1.element = "interface") :
    ((interfaceTags e).map Attributes.stored).Perm
    (interfaceOf e.1 e.2).stored := by
  have henums : ((elements "enum" e.2).flatMap leafTags).map Attributes.stored =
      (interfaceOf e.1 e.2).enums.map Enumeration.stored := by
    rw [interfaceOf, List.map_map]
    exact stored_leafTags (fun a ha => by rw [Attributes.stored, ha]; rfl) e.2
  have hmessages : ∀ kind : MessageKind,
      (((elements kind.name e.2).flatMap messageTags).map
      Attributes.stored).Perm
        (((elements kind.name e.2).map fun m => messageOf kind m.1 m.2).flatMap
        Message.stored) := by
    intro kind
    rw [List.flatMap_map]
    exact stored_flatMap_perm (fun m hm => stored_messageTags_perm hm) e.2
  have hparts :=
    stored_withParts_perm [("enum", leafTags), ("request", messageTags),
      ("event", messageTags)] e
  simp only [List.flatMap_cons, List.flatMap_nil, List.append_nil, henums,
    Attributes.stored, h] at hparts
  rw [Interface.stored, Interface.messages, List.flatMap_append]
  exact hparts.trans
    (.cons _ (((hmessages .request).append (hmessages .event)).append_left _))

theorem stored_importTags (ns : List Node) :
    ((elements "import" ns).flatMap importTags).map Attributes.stored =
    (importsOf ns).map Import.stored := by
  rw [importsOf, List.filterMap_eq_flatMap_toList, List.map_flatMap,
    List.map_flatMap]
  apply List.flatMap_congr
  intro e he
  have hname := element_of_mem_elements he
  cases hsaid : e.1.said? "name" with
  | none => simp [importTags, hsaid]
  | some name =>
    simp [importTags, leafTags, hsaid, Attributes.stored, Attributes.said,
      Import.stored, hname]

theorem stored_protocolTags_perm (h : e.1.element = "protocol") :
    ((protocolTags e).map Attributes.stored).Perm
      ((importsOf e.2).map Import.stored ++ (protocolOf e.1 e.2).stored) := by
  have hinterfaces :
      (((elements "interface" e.2).flatMap interfaceTags).map
      Attributes.stored).Perm
      ((protocolOf e.1 e.2).interfaces.flatMap Interface.stored) := by
    rw [protocolOf, List.flatMap_map]
    exact stored_flatMap_perm (fun i hi => stored_interfaceTags_perm hi) e.2
  have hparts :=
    stored_withParts_perm [("import", importTags), ("interface", interfaceTags)]
      e
  simp only [List.flatMap_cons, List.flatMap_nil, List.append_nil,
    stored_importTags, Attributes.stored, h] at hparts
  -- the document keeps the imports in front of the protocol in which they stand
  exact hparts.trans
    ((List.Perm.cons _ (hinterfaces.append_left _)).trans List.perm_middle.symm)

def importedTags : Choice :=
  fun e => (elements "import" e.2).flatMap importTags

theorem importedTags_sublist (e : Attributes × List Node) :
    (importedTags e).Sublist (elementTags e) :=
  calc
    (importedTags e).Sublist ((elements "import" e.2).flatMap elementTags) :=
      .flatMap_right _ fun i _ => importTags_sublist i
    _ |>.Sublist (tagsIn e.2) := flatMap_elements_sublist "import" e.2
    _ |>.Sublist (elementTags e) := List.sublist_cons_self e.1 _

theorem stored_importedTags (es : List (Attributes × List Node)) :
    (es.flatMap importedTags).map Attributes.stored =
    (es.flatMap fun e => importsOf e.2).map Import.stored := by
  rw [List.map_flatMap, List.map_flatMap]
  exact List.flatMap_congr fun e _ => stored_importTags e.2

/-- The start tags that a document with several protocol elements keeps: of all
but the last only the imports. -/
def keptTags (earlier : List (Attributes × List Node))
    (last : Attributes × List Node) : List Attributes :=
  earlier.flatMap importedTags ++ protocolTags last

theorem keptTags_sublist {roots : List Node}
    (h : elements "protocol" roots = earlier ++ [last]) :
    (keptTags earlier last).Sublist (tagsIn roots) := by
  have hroots := flatMap_elements_sublist "protocol" roots
  rw [h, List.flatMap_append, List.flatMap_singleton] at hroots
  exact List.Sublist.trans
    (.append (.flatMap_right earlier fun e _ => importedTags_sublist e)
    (protocolTags_sublist last)) hroots

theorem stored_keptTags_perm (h : last.1.element = "protocol") :
    ((keptTags earlier last).map Attributes.stored).Perm
      (((earlier ++ [last]).flatMap fun e => importsOf e.2).map Import.stored ++
        (protocolOf last.1 last.2).stored) := by
  rw [keptTags, List.map_append, stored_importedTags, List.flatMap_append,
    List.flatMap_singleton, List.map_append, List.append_assoc]
  exact (stored_protocolTags_perm h).append_left _

/-! ## The lists of a document -/

theorem elementTags_sublist_of_mem {ns : List Node} (h : e ∈ elements name ns) :
    (elementTags e).Sublist (tagsIn ns) := by
  have hone := (List.singleton_sublist.2 h).flatMap elementTags
  rw [List.flatMap_singleton] at hone
  exact hone.trans (flatMap_elements_sublist name ns)

theorem elementTags_sublist_of_mem_children {child : Attributes × List Node}
    (h : child ∈ elements name e.2) :
    (elementTags child).Sublist (elementTags e) :=
  (elementTags_sublist_of_mem h).trans (List.sublist_cons_self e.1 _)

/-- The span of an element and those along one of its lists are spans of start
tags in document order. -/
theorem row_sublist
    {α : Type} (read : Attributes × List Node → α) (span : α → Span)
    (h : ∀ e, span (read e) = e.1.span) (name : Text)
    (e : Attributes × List Node) :
    (e.1.span :: ((elements name e.2).map read).map span).Sublist
      ((elementTags e).map Attributes.span) := by
  have hleaves : ((elements name e.2).map read).map span =
      ((elements name e.2).flatMap leafTags).map Attributes.span := by
    rw [List.map_map, List.map_flatMap, List.map_eq_flatMap]
    exact List.flatMap_congr fun a _ => congrArg (fun s => [s]) (h a)
  have hsub : ((elements name e.2).flatMap leafTags).Sublist (tagsIn e.2) :=
    (List.Sublist.flatMap_right _ fun a _ => leafTags_sublist a).trans
      (flatMap_elements_sublist name e.2)
  rw [hleaves, elementTags, List.map_cons]
  exact (hsub.map _).cons_cons _

theorem sublist_of_mem_rows_interfaceOf
    (hrow : row ∈ (interfaceOf e.1 e.2).rows) :
    row.Sublist ((elementTags e).map Attributes.span) := by
  have hmessage : ∀ kind : MessageKind, ∀ m ∈ elements kind.name e.2,
      ((messageOf kind m.1 m.2).span :: (messageOf kind m.1 m.2).wireArgs.map
      Argument.span).Sublist
        ((elementTags e).map Attributes.span) := by
    intro kind m hm
    have harguments := row_sublist (fun a => argumentOf a.1 a.2) Argument.span
      (fun _ => rfl) "arg" m
    exact harguments.trans ((elementTags_sublist_of_mem_children hm).map _)
  simp only [Interface.rows, Interface.messages, List.mem_cons, List.map_append,
    List.mem_append, List.mem_map] at hrow
  rcases hrow with rfl | rfl | rfl | ⟨m, hm, rfl⟩ | ⟨m, hm, rfl⟩
  · exact row_sublist (fun a => enumerationOf a.1 a.2) Enumeration.span
      (fun _ => rfl) "enum" e
  · exact row_sublist (fun m => messageOf .request m.1 m.2) Message.span
      (fun _ => rfl) "request" e
  · exact row_sublist (fun m => messageOf .event m.1 m.2) Message.span
      (fun _ => rfl) "event" e
  · obtain ⟨element, helement, rfl⟩ := List.mem_map.1 hm
    exact hmessage .request element helement
  · obtain ⟨element, helement, rfl⟩ := List.mem_map.1 hm
    exact hmessage .event element helement

theorem sublist_of_mem_rows_protocolOf
    (hrow : row ∈ (protocolOf e.1 e.2).rows) :
    row.Sublist ((elementTags e).map Attributes.span) := by
  rcases List.mem_cons.1 hrow with rfl | hrow
  · exact row_sublist (fun i => interfaceOf i.1 i.2) Interface.span
      (fun _ => rfl) "interface" e
  · obtain ⟨i, hi, hrow⟩ := List.mem_flatMap.1 hrow
    obtain ⟨element, helement, rfl⟩ := List.mem_map.1 hi
    exact (sublist_of_mem_rows_interfaceOf hrow).trans
      ((elementTags_sublist_of_mem_children helement).map _)

theorem sublist_of_mem_rows {roots : List Node}
    (h : elements "protocol" roots = earlier ++ [last])
    (hrow : row ∈ ((earlier ++ [last]).flatMap fun e => importsOf e.2).map
      Import.span ::
      (protocolOf last.1 last.2).rows) :
    row.Sublist ((tagsIn roots).map Attributes.span) := by
  rcases List.mem_cons.1 hrow with rfl | hrow
  · have hspans : ((earlier ++ [last]).flatMap fun e => importsOf e.2).map
        Import.span =
        ((earlier ++ [last]).flatMap importedTags).map Attributes.span := by
      have hstored :=
        congrArg (List.map Stored.span)
          (stored_importedTags (earlier ++ [last]))
      rw [List.map_map, List.map_map] at hstored
      exact hstored.symm
    have hroots := flatMap_elements_sublist "protocol" roots
    rw [h] at hroots
    rw [hspans]
    exact ((List.Sublist.flatMap_right _ fun e _ =>
      importedTags_sublist e).trans hroots).map _
  · have hlast : last ∈ elements "protocol" roots := by simp [h]
    exact (sublist_of_mem_rows_protocolOf hrow).trans
      ((elementTags_sublist_of_mem hlast).map _)

/-! ## Exact spans -/

/-- The spans of a document that was read from a file, and of what was found on
the way. -/
structure ExactSpans (f : Source.File) (d : Document)
    (found : List Diagnostic) : Prop where
  inside : ∀ s ∈ d.stored.map Stored.span ++ found.flatMap Diagnostic.spans,
    Inside f s
  /-- The span of an element covers its start tag, from `<` to `>`. -/
  written : ∀ e ∈ d.stored, ∃ tag : Attributes, tag.stored = e ∧ tag.Written f
  disjoint : d.stored.Pairwise fun a b => a.span.stop ≤ b.span.start ∨
    b.span.stop ≤ a.span.start
  /-- The elements are different ones of the start tags in the file. -/
  chosen : ∃ tags : List Attributes, tags.Sublist (startTags f) ∧
    (tags.map Attributes.stored).Perm d.stored
  /-- The start tags increase in document order. -/
  increasing : (startTags f).Pairwise fun a b => a.span.stop ≤ b.span.start
  /-- Along every list of the document the spans are in document order. -/
  rows : ∀ row ∈ d.rows, row.Sublist ((startTags f).map Attributes.span) ∧
    row.Pairwise fun a b => a.stop ≤ b.start

/-- A document that keeps some of the start tags in a row has exact spans. -/
theorem InRow.exactSpans
    {f : Source.File} {start : Nat} {d : Document} {tags : List Attributes}
    {found : List Diagnostic} (h : InRow f start (startTags f))
    (htags : tags.Sublist (startTags f))
    (hperm : (tags.map Attributes.stored).Perm d.stored)
    (hrows : ∀ row ∈ d.rows, row.Sublist ((startTags f).map Attributes.span))
    (hfound : ∀ x ∈ found, ∃ tag ∈ startTags f, x.spans = [tag.span]) :
    ExactSpans f d found := by
  have hwritten : ∀ e ∈ d.stored, ∃ tag : Attributes, tag.stored = e ∧
      tag.Written f := by
    intro e he
    obtain ⟨tag, htag, rfl⟩ := List.mem_map.1 (hperm.mem_iff.2 he)
    exact ⟨tag, rfl, h.written tag (htags.subset htag)⟩
  constructor
  case inside =>
    intro s hs
    rcases List.mem_append.1 hs with hs | hs
    · obtain ⟨e, he, rfl⟩ := List.mem_map.1 hs
      obtain ⟨tag, rfl, htag⟩ := hwritten e he
      exact htag.inside
    · obtain ⟨x, hx, hs⟩ := List.mem_flatMap.1 hs
      obtain ⟨tag, htag, hspans⟩ := hfound x hx
      rw [hspans, List.mem_singleton] at hs
      exact hs ▸ (h.written tag htag).inside
  case written => exact hwritten
  case disjoint =>
    refine (hperm.pairwise_iff Or.symm).1 (List.pairwise_map.2 ?_)
    exact (h.pairwise.sublist htags).imp Or.inl
  case chosen => exact ⟨tags, htags, hperm⟩
  case increasing => exact h.pairwise
  case rows =>
    intro row hrow
    exact ⟨hrows row hrow, (List.pairwise_map.2 h.pairwise).sublist
      (hrows row hrow)⟩

/-- The spans of every document that is read are exact. -/
theorem exactSpans_of_read
    {limit : Int} {f : Source.File} {d : Document} {found : List Diagnostic}
    (hlimit : limit ≤ maxOffset) (hread : read limit f = (some d, found)) :
    ExactSpans f d found := by
  obtain ⟨hending, hstop, r, p, hfollow, hr, rfl⟩ := complete_of_read hread
  obtain ⟨roots, hspells⟩ := exists_spells hending f.id
  have hsize : f.content.length < UInt32.size := by
    have hlength : (Markup.stream f.content).stop = f.content.length :=
      stop_streamFrom hending
    have hword : UInt32.size = 0x100000000 := rfl
    unfold maxOffset at hlimit
    omega
  have hfound : ∀ x ∈ found, ∃ tag ∈ startTags f, x.spans = [tag.span] := by
    intro x hx
    apply exists_startTag_of_follow (r := {})
    rwa [hfollow]
  have htags : startTags f = tagsIn roots := hspells.filterMap_startTag?
  rw [Reading.follow_roots hspells [] none] at hfollow
  obtain ⟨rfl, -⟩ := Prod.mk.inj hfollow
  rw [Option.or_none, Option.map_eq_some_iff] at hr
  obtain ⟨last, hlast, rfl⟩ := hr
  obtain ⟨earlier, helements⟩ := List.getLast?_eq_some_iff.1 hlast
  have hprotocol : last.1.element = "protocol" :=
    element_of_mem_elements (List.mem_of_getLast? hlast)
  rw [helements]
  refine (inRow_startTags hsize).exactSpans ?_ (stored_keptTags_perm hprotocol)
    ?_ hfound
  · rw [htags]
    exact keptTags_sublist helements
  · rw [htags]
    exact fun row hrow => sublist_of_mem_rows helements hrow

/-- A file with a comment that looks like a tag, a `>` in a value, an escape,
tags that close themselves, two protocol elements and an event without a name.
-/
def hedge : Source.File where
  id := 3
  path := "hedge.xml"
  content :=
    "<protocol name=\"a\"><import name=\"x\"/></protocol><!--<interface>--><protocol name='b'>" ++
    "<interface name=\"b_i\" version=\"1\"><request name=\"a>b\"><arg name=\"n\" type=\"int\"/></request>" ++
    "<enum name=\"&lt;\"/><event/></interface></protocol>"
  newlines := []
  digest := []
  treatment := ⟨0⟩

def hedgeInterface : Interface where
  name := "b_i"
  version := 1
  enums := [{ name := "<", since := 1, span := ⟨3, 175, 194⟩ }]
  requests := [{
    name := "a>b"
    since := 1
    args := [{ name := "n", kind := .int, span := ⟨3, 139, 165⟩ }]
    span := ⟨3, 119, 139⟩ }]
  events := [{ kind := .event, since := 1, span := ⟨3, 194, 202⟩ }]
  span := ⟨3, 85, 119⟩

theorem hedge_exactSpans :
    ∃ d found, read maxOffset hedge = (some d, found) ∧
    ExactSpans hedge d found ∧
      found.flatMap Diagnostic.spans = [⟨3, 194, 202⟩] ∧
      d.stored.map (fun e => covered hedge.content e.span) =
        [("<import name=\"x\"/>" : Text), "<protocol name='b'>",
        "<interface name=\"b_i\" version=\"1\">",
          "<enum name=\"&lt;\"/>", "<request name=\"a>b\">",
          "<arg name=\"n\" type=\"int\"/>", "<event/>"] := by
  have hread : read maxOffset hedge =
      (some {
        path := "hedge.xml"
        file := 3
        imports := [⟨"x", ⟨3, 19, 37⟩⟩]
        protocol :=
          some { name := "b", interfaces := [hedgeInterface],
                 span := ⟨3, 66, 85⟩ } },
        [.error .missingAttribute ⟨3, 194, 202⟩
        { protocol := "b", interface := "b_i" }
          "<event> requires attribute \"name\""]) := by
    decide +kernel
  exact ⟨_, _, hread, exactSpans_of_read (Int.le_refl _) hread,
    rfl, by decide +kernel⟩

end Document

end ProtocolCorpus
