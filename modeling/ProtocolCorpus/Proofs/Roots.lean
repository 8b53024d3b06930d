import ProtocolCorpus.Proofs.InPlace

/-!
# The roots of a document

A document with one root, a protocol element, is read to what its tree declares.
A text may have more elements at the top, and this is not reported: every
protocol element takes the place of the one before, so the interfaces of the
last one are those of the document.
-/

namespace ProtocolCorpus

namespace Document

variable {limit : Int} {f : Source.File} {found : List Diagnostic}

def Node.isElement : Node → Bool
  | .element _ _ => true
  | .text _ => false

theorem elements_filter (name : Text) (ns : List Node) :
    elements name (ns.filter Node.isElement) = elements name ns := by
  induction ns with
  | nil => rfl
  | cons n ns ih =>
    cases n with
    | element tag children =>
      rw [List.filter_cons_of_pos rfl, elements_element_cons,
        elements_element_cons, ih]
    | text data => exact ih

theorem rootFindings_filter (name : Text) (ns : List Node) :
    rootFindings name (ns.filter Node.isElement) = rootFindings name ns := by
  induction ns generalizing name with
  | nil => rfl
  | cons n ns ih =>
    cases n with
    | element tag children =>
      rw [List.filter_cons_of_pos rfl, rootFindings, rootFindings, ih, ih]
    | text data => exact ih name

/-- What is found in a document with one root. -/
def findingsOf (tag : Attributes) (children : List Node) : List Diagnostic :=
  Role.protocol.found tag {} ++ findingsIn .protocol
    { protocol := tag.said "name" } children

theorem follow_of_single_root
    {es : List (Span × Markup.Event)} {roots children : List Node}
    {tag : Attributes} (hspells : Spells es roots)
    (hroot : roots.filter Node.isElement = [.element tag children])
    (hprotocol : tag.element = "protocol") :
    Reading.follow {} es =
      ({ imports := importsOf children,
         protocol := some (protocolOf tag children) },
        findingsOf tag children) := by
  have helements : elements "protocol" roots = [(tag, children)] := by
    rw [← elements_filter, hroot, elements_element, if_pos hprotocol]
  have hfindings : rootFindings [] roots = findingsOf tag children := by
    rw [← rootFindings_filter, hroot]
    simp [rootFindings, hprotocol, findingsOf]
  rw [Reading.follow_roots hspells [] none, helements]
  simp [hfindings]

theorem read_of_run {events : List Markup.Located} {last : Nat} {r : Reading}
    {p : Protocol}
    (hstream : Markup.stream f.content = ⟨events, .complete, last⟩)
    (hlast : last ≤ limit)
    (hrun : Reading.run f.id limit .complete last {} {} 0 events =
      (some r, found)) (hprotocol : r.protocol = some p) :
    read limit f =
      (some { path := f.path, file := f.id, imports := r.imports,
              protocol := some p }, found) := by
  rw [read_eq_stackRead, stackRead, if_neg (by omega), hstream]
  simp [hrun, hprotocol]

/-- The document with one root is what the tree declares; no mark is missing on
the way. -/
theorem read_eq_declared
    {file : UInt32} {limit : Int} {last : Nat} {events : List Markup.Located}
    {roots children : List Node} {tag : Attributes}
    (hspells : Spells (spanned file 0 events) roots)
    (hroot : roots.filter Node.isElement = [.element tag children])
    (hprotocol : tag.element = "protocol") (hlast : last ≤ limit)
    (hfits : ∀ e ∈ events, (e.stop : Int) ≤ limit) :
    InPlace.run file limit .complete last {} {} 0 events =
        some (some { imports := importsOf children,
                     protocol := some (protocolOf tag children) },
          findingsOf tag children) ∧
      (∀ f : Source.File, f.id = file →
        Markup.stream f.content = ⟨events, .complete, last⟩ →
        read limit f =
          (some { path := f.path, file, imports := importsOf children,
                  protocol := some (protocolOf tag children) },
            findingsOf tag children)) ∧
      InPlace.follow {} (spanned file 0 events) =
        some ({ imports := importsOf children,
                protocol := some (protocolOf tag children) },
          findingsOf tag children) ∧
      ∀ n, ∃ b found,
        InPlace.follow {} ((spanned file 0 events).take n) = some (b, found) ∧
        b.marks.SetFor (b.stack.map OpenElement.role) := by
  have hfollow := follow_of_single_root hspells hroot hprotocol
  have hrun : Reading.run file limit .complete last {} {} 0 events =
      (some { imports := importsOf children,
              protocol := some (protocolOf tag children) },
        findingsOf tag children) := by
    rw [Reading.run_complete hlast hfits, hfollow]
  refine ⟨?_, ?_, ?_, ?_⟩
  · obtain ⟨result, hresult, hrel⟩ :=
      mirrors_start.exists_run file limit .complete last {} 0 events
    rw [hrun] at hresult hrel
    cases hrel with
    | some hmirrors => rw [hresult, hmirrors.eq_of_stack rfl]
  · rintro f rfl hstream
    exact read_of_run hstream hlast hrun rfl
  · obtain ⟨b, hb, hmirrors⟩ := mirrors_start.follow (spanned file 0 events)
    rw [hfollow] at hb hmirrors
    rw [hb, hmirrors.eq_of_stack rfl]
  · intro n
    obtain ⟨b, hb, hmirrors⟩ :=
      mirrors_start.follow ((spanned file 0 events).take n)
    exact ⟨b, _, hb, hmirrors.setFor⟩

/-- An opening tag without name spaces, and the offset behind it. -/
def openingAt (stop : Nat) (name : Text) (attributes : List (Text × Text)) :
    Markup.Located :=
  ⟨.opened ⟨[], name⟩ (attributes.map fun a => ⟨⟨[], a.1⟩, a.2⟩), stop⟩

def closingAt (stop : Nat) (name : Text) : Markup.Located :=
  ⟨.closed ⟨[], name⟩, stop⟩

/-- A protocol with an import that names nothing, elements that may not stand
where they do, one of them an interface, and an interface with an entry and an
argument, which are described. -/
def thicket : Source.File where
  id := 7
  path := "thicket.xml"
  content :=
    "<protocol name=\"p\"><import/><import name=\"w\"/>" ++
    "<x><interface name=\"i\" version=\"1\"/></x>" ++
    "<interface name=\"s\" version=\"2\"><enum name=\"e\">" ++
    "<entry name=\"a\" value=\"0x1\"><description summary=\"one\"/></entry>" ++
    "</enum><request name=\"r\"><arg name=\"n\" type=\"int\">" ++
    "<description> two </description></arg><x/></request></interface></protocol>"
  newlines := []
  digest := []
  treatment := ⟨0⟩

def thicketEvents : List Markup.Located :=
  [openingAt 19 "protocol" [("name", "p")], openingAt 28 "import" [],
    closingAt 28 "import", openingAt 46 "import" [("name", "w")],
    closingAt 46 "import", openingAt 49 "x" [],
    openingAt 82 "interface" [("name", "i"), ("version", "1")],
    closingAt 82 "interface", closingAt 86 "x",
    openingAt 118 "interface" [("name", "s"), ("version", "2")],
    openingAt 133 "enum" [("name", "e")],
    openingAt 161 "entry" [("name", "a"), ("value", "0x1")],
    openingAt 189 "description" [("summary", "one")],
    closingAt 189 "description", closingAt 197 "entry", closingAt 204 "enum",
    openingAt 222 "request" [("name", "r")],
    openingAt 247 "arg" [("name", "n"), ("type", "int")],
    openingAt 260 "description" [], ⟨.text " two ", 265⟩,
    closingAt 279 "description", closingAt 285 "arg", openingAt 289 "x" [],
    closingAt 289 "x", closingAt 299 "request", closingAt 311 "interface",
    closingAt 322 "protocol"]

theorem thicket_events :
    Markup.stream thicket.content = ⟨thicketEvents, .complete, 322⟩ := by
  decide +kernel

/-- The document as it has been written after some of the events. -/
def thicketAfter (n : Nat) : Option InPlace :=
  (InPlace.follow {} ((spanned 7 0 thicketEvents).take n)).map Prod.fst

def thicketProtocol : Protocol where
  name := "p"
  span := ⟨7, 0, 19⟩
  interfaces := [{
    name := "s"
    version := 2
    span := ⟨7, 86, 118⟩
    enums := [{
      name := "e", since := 1, span := ⟨7, 118, 133⟩,
      entries := [{ name := "a", value := 1, since := 1, summary := "one" }] }]
    requests := [{
      name := "r", since := 1, span := ⟨7, 204, 222⟩,
      args := [{ name := "n", kind := .int, summary := "two",
                 span := ⟨7, 222, 247⟩ }] }] }]

/-- Marks are set for the declarations inside the second interface, and none is
for what stands where it may not. -/
theorem thicket_read_eq_declared :
    read maxOffset thicket =
        (some { path := "thicket.xml", file := 7,
                imports := [⟨"w", ⟨7, 28, 46⟩⟩],
                protocol := some thicketProtocol },
          [.error .missingAttribute ⟨7, 19, 28⟩ { protocol := "p" }
              "<import> requires attribute \"name\"",
            .warning .unexpectedElement ⟨7, 46, 49⟩ { protocol := "p" }
              "unexpected element <x> inside <protocol>",
            .warning .unexpectedElement ⟨7, 285, 289⟩
              { protocol := "p", interface := "s", message := "r" }
              "unexpected element <x> inside <request>"]) ∧
      (∀ n, ∃ b, thicketAfter n = some b ∧
        b.marks.SetFor (b.stack.map OpenElement.role)) ∧
      [7, 12, 18].map (fun n => (thicketAfter n).map InPlace.marks) =
        [some {},
          some { interface := some 0, enumeration := some ⟨0, 0⟩,
                 entry := some (⟨0, 0⟩, 0) },
          some { interface := some 0, message := some ⟨0, .request, 0⟩,
                 argument := some (⟨0, .request, 0⟩, 0) }] := by
  have hspells : Spells (spanned 7 0 thicketEvents) _ :=
    .element _ _ _ _ _
      (.element _ _ _ _ _ .nil (.element _ _ _ _ _ .nil
        (.element _ _ _ _ _ (.element _ _ _ _ _ .nil .nil)
          (.element _ _ _ _ _
            (.element _ _ _ _ _
              (.element _ _ _ _ _ (.element _ _ _ _ _ .nil .nil) .nil)
              (.element _ _ _ _ _
                (.element _ _ _ _ _
                  (.element _ _ _ _ _ (.text _ _ .nil) .nil)
                  (.element _ _ _ _ _ .nil .nil)) .nil)) .nil)))) .nil
  have hlast : ((322 : Nat) : Int) ≤ maxOffset := by decide
  have hfits : ∀ e ∈ thicketEvents, (e.stop : Int) ≤ maxOffset := by decide
  obtain ⟨-, hread, -, hmarks⟩ := read_eq_declared hspells rfl rfl hlast hfits
  refine ⟨?_, ?_, rfl⟩
  · rw [hread thicket rfl thicket_events]
    decide +kernel
  · intro n
    obtain ⟨b, found, hfollow, hset⟩ := hmarks n
    refine ⟨b, ?_, hset⟩
    rw [thicketAfter, hfollow]
    rfl

/-! ## More than one root -/

/-- The interfaces that a protocol element declares. -/
def interfacesIn (e : Attributes × List Node) : List Interface :=
  (elements "interface" e.2).map fun i => interfaceOf i.1 i.2

/-- A document is read from a text that is not malformed and small enough, by
following all its events. -/
theorem complete_of_read {d : Document} (h : read limit f = (some d, found)) :
    (Markup.stream f.content).ending = .complete ∧
    (Markup.stream f.content).stop ≤ limit ∧
      ∃ r p, Reading.follow
      {} (spanned f.id 0 (Markup.stream f.content).events) = (r, found) ∧
        r.protocol = some p ∧
        d = { path := f.path, file := f.id, imports := r.imports,
              protocol := some p } := by
  rw [read_eq_stackRead, stackRead] at h
  split at h
  next => cases h
  next =>
    dsimp only at h
    split at h
    next => cases h
    next r hrun =>
      obtain ⟨hending, hlast, hfits⟩ := Reading.fits_of_run hrun
      split at h
      next => cases h
      next p hp =>
        cases h
        rw [hending, Reading.run_complete hlast hfits] at hrun ⊢
        refine ⟨rfl, hlast, r, p, ?_, hp, rfl⟩
        exact Prod.ext (Option.some.inj hrun) rfl

theorem follow_of_read {d : Document} (h : read limit f = (some d, found)) :
    (Markup.stream f.content).ending = .complete ∧
      ∃ r p, Reading.follow
      {} (spanned f.id 0 (Markup.stream f.content).events) = (r, found) ∧
        r.protocol = some p ∧ d.protocol = some p := by
  obtain ⟨hending, -, r, p, hfollow, hp, rfl⟩ := complete_of_read h
  exact ⟨hending, r, p, hfollow, hp, rfl⟩

/-- The interfaces of a document are those of the last protocol element at the
top. So none is missing exactly if no protocol element before it declares one.
-/
theorem interfaces_of_last_root
    {limit : Int} {f : Source.File} {d : Document} {found : List Diagnostic}
    (hread : read limit f = (some d, found)) :
    (∃ roots, Spells (spanned f.id 0 (Markup.stream f.content).events) roots) ∧
      ∀ roots, Spells (spanned f.id 0 (Markup.stream f.content).events) roots →
        found = rootFindings [] roots ∧
          (∃ last, (elements "protocol" roots).getLast? = some last ∧
          d.interfaces = interfacesIn last) ∧
          (((elements "protocol" roots).flatMap interfacesIn).Sublist
          d.interfaces ↔
            ∀ e ∈ (elements "protocol" roots).dropLast,
            elements "interface" e.2 = []) := by
  obtain ⟨hending, r, p, hfollow, hr, hd⟩ := follow_of_read hread
  refine ⟨exists_spells hending f.id, ?_⟩
  intro roots hspells
  rw [Reading.follow_roots hspells [] none] at hfollow
  obtain ⟨rfl, rfl⟩ := Prod.mk.inj hfollow
  rw [Option.or_none, Option.map_eq_some_iff] at hr
  obtain ⟨last, hlast, rfl⟩ := hr
  obtain ⟨earlier, helements⟩ := List.getLast?_eq_some_iff.1 hlast
  have hinterfaces : d.interfaces = interfacesIn last := by
    rw [Document.interfaces, hd]
    rfl
  have hnone : (∀ e ∈ earlier, elements "interface" e.2 = []) ↔
      earlier.flatMap interfacesIn = [] := by
    simp [List.flatMap_eq_nil_iff, interfacesIn]
  refine ⟨rfl, ⟨last, hlast, hinterfaces⟩, ?_⟩
  rw [hinterfaces, helements, List.flatMap_append, List.flatMap_singleton,
    List.dropLast_concat, hnone]
  constructor
  · intro hsub
    have hlength := hsub.length_le
    rw [List.length_append] at hlength
    exact List.eq_nil_of_length_eq_zero (by omega)
  · intro hnil
    rw [hnil, List.nil_append]

/-- A file with two protocol elements, of which the first declares nothing. -/
def heir : Source.File where
  id := 0
  path := "doc.xml"
  content :=
    "<protocol name=\"a\"/><protocol name=\"b\"><interface name=\"i\" version=\"1\"/></protocol>"
  newlines := []
  digest := []
  treatment := ⟨0⟩

def heirEvents : List Markup.Located :=
  [openingAt 20 "protocol" [("name", "a")], closingAt 20 "protocol",
    openingAt 39 "protocol" [("name", "b")],
    openingAt 72 "interface" [("name", "i"), ("version", "1")],
    closingAt 72 "interface", closingAt 83 "protocol"]

theorem heir_interfaces :
    ∃ d roots, read maxOffset heir = (some d, []) ∧
    Spells (spanned 0 0 heirEvents) roots ∧
      d.interfaces.map Interface.name = [("i" : Text)] ∧
      ((elements "protocol" roots).flatMap interfacesIn).Sublist
      d.interfaces := by
  have hevents : Markup.stream heir.content = ⟨heirEvents, .complete, 83⟩ := by
    decide +kernel
  have hread : read maxOffset heir =
      (some {
        path := "doc.xml"
        protocol := some {
          name := "b", interfaces :=
            [{ name := "i", version := 1, span := ⟨0, 39, 72⟩ }], span :=
            ⟨0, 20, 39⟩ } },
        []) := by
    decide +kernel
  have hspells : Spells (spanned 0 0 heirEvents) _ :=
    .element _ _ _ _ _ .nil
      (.element _ _ _ _ _ (.element _ _ _ _ _ .nil .nil) .nil)
  obtain ⟨-, hroots⟩ := interfaces_of_last_root hread
  rw [hevents] at hroots
  obtain ⟨-, -, hsub⟩ := hroots _ hspells
  exact ⟨_, _, hread, hspells, rfl, hsub.2 (by decide)⟩

/-- A file with two protocol elements and an interface in each. -/
def rivals : Source.File where
  id := 0
  path := "doc.xml"
  content :=
    "<protocol name=\"a\"><interface name=\"a_i\" version=\"1\"/></protocol>" ++
    "<protocol name=\"b\"><interface name=\"b_i\" version=\"1\"/></protocol>"
  newlines := []
  digest := []
  treatment := ⟨0⟩

def rivalEvents : List Markup.Located :=
  [openingAt 19 "protocol" [("name", "a")],
    openingAt 54 "interface" [("name", "a_i"), ("version", "1")],
    closingAt 54 "interface", closingAt 65 "protocol",
    openingAt 84 "protocol" [("name", "b")],
    openingAt 119 "interface" [("name", "b_i"), ("version", "1")],
    closingAt 119 "interface", closingAt 130 "protocol"]

/-- The first interface is lost, and nothing tells so. -/
theorem rival_interface_lost :
    ∃ d roots, read maxOffset rivals = (some d, []) ∧
      Markup.stream rivals.content = ⟨rivalEvents, .complete, 130⟩ ∧
      Spells (spanned 0 0 rivalEvents) roots ∧
      ((elements "protocol" roots).flatMap interfacesIn).map Interface.name =
      [("a_i" : Text), ("b_i" : Text)] ∧
      d.interfaces.map Interface.name = [("b_i" : Text)] := by
  have hevents : Markup.stream rivals.content =
    ⟨rivalEvents, .complete, 130⟩ := by decide +kernel
  have hread : read maxOffset rivals =
      (some {
        path := "doc.xml"
        protocol := some {
          name := "b", interfaces :=
            [{ name := "b_i", version := 1, span := ⟨0, 84, 119⟩ }],
          span := ⟨0, 65, 84⟩ } },
        []) := by
    decide +kernel
  have hspells : Spells (spanned 0 0 rivalEvents) _ :=
    .element _ _ _ _ _ (.element _ _ _ _ _ .nil .nil)
      (.element _ _ _ _ _ (.element _ _ _ _ _ .nil .nil) .nil)
  exact ⟨_, _, hread, hevents, hspells, rfl, rfl⟩

end Document

end ProtocolCorpus
