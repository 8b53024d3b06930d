import ProtocolCorpus.Proofs.Frames

/-!
# The trees of a document

A stream of events that ends with its text is a row of trees written out in
document order. Reading a document from first to last event is then reading its
trees, and what is true of every row of trees is true of every document that is
not malformed.
-/

namespace ProtocolCorpus

namespace Document

/-- A part of a document: character data, or an element with what stands in it.
-/
inductive Node
  | element (tag : Attributes) (children : List Node)
  | text (data : Text)

/-- The events are those of the trees, in document order. Comments, declarations
and instructions may stand anywhere and belong to no tree. -/
inductive Spells : List (Span × Markup.Event) → List Node → Prop
  | nil : Spells [] []
  | other {es : List (Span × Markup.Event)} {ns : List Node} (span : Span) :
      Spells es ns → Spells ((span, .other) :: es) ns
  | text {es : List (Span × Markup.Event)} {ns : List Node} (span : Span)
      (data : Text) :
      Spells es ns → Spells ((span, .text data) :: es) (.text data :: ns)
  | element {inner es : List (Span × Markup.Event)} {children ns : List Node}
      (span span' : Span)
      (name name' : Markup.Name) (attributes : List Markup.Attribute) :
      Spells inner children → Spells es ns →
      Spells ((span, .opened name attributes) ::
      (inner ++ (span', .closed name') :: es))
        (.element ⟨name.localName, attributes, span⟩ children :: ns)

/-- The events inside some open elements: trees, the end of the innermost
element, and so on outward. -/
inductive Unwinds : Nat → List (Span × Markup.Event) → Prop
  | outermost {es : List (Span × Markup.Event)} {ns : List Node} :
  Spells es ns → Unwinds 0 es
  | close {depth : Nat} {es rest : List (Span × Markup.Event)} {ns : List Node}
  (span : Span)
      (name : Markup.Name) : Spells es ns → Unwinds depth rest →
      Unwinds (depth + 1) (es ++ (span, .closed name) :: rest)

namespace Unwinds

variable {depth : Nat} {es : List (Span × Markup.Event)}

theorem other (h : Unwinds depth es) (span : Span) :
    Unwinds depth ((span, .other) :: es) := by
  cases h with
  | outermost hes => exact outermost (.other span hes)
  | close span' name hes hrest => exact close span' name (.other span hes) hrest

theorem text (h : Unwinds depth es) (span : Span) (data : Text) :
    Unwinds depth ((span, .text data) :: es) := by
  cases h with
  | outermost hes => exact outermost (.text span data hes)
  | close span' name hes hrest =>
    exact close span' name (.text span data hes) hrest

theorem closed (h : Unwinds depth es) (span : Span) (name : Markup.Name) :
    Unwinds (depth + 1) ((span, .closed name) :: es) :=
  close span name .nil h

/-- An opening tag makes a tree of the events up to the end of its element. -/
theorem opened
    (h : Unwinds (depth + 1) es) (span : Span) (name : Markup.Name)
    (attributes : List Markup.Attribute) :
    Unwinds depth ((span, .opened name attributes) :: es) := by
  cases h with
  | close span' name' hinner hrest =>
    cases hrest with
    | outermost hes =>
      exact outermost (.element span span' name name' attributes hinner hes)
    | close span'' name'' hes hrest =>
      have htrees := Spells.element span span' name name' attributes hinner hes
      simpa using close span'' name'' htrees hrest

end Unwinds

def spanned (file : UInt32) (start : Nat) : List Markup.Located →
    List (Span × Markup.Event)
  | [] => []
  | e :: es =>
    (spanBetween file start e.stop, e.event) :: spanned file e.stop es

theorem unwinds_streamFrom
    {content : Text} {stack : List Markup.OpenElement} {scope : Markup.Scope}
    {input : Text}
    (h : (Markup.streamFrom content stack scope input).ending = .complete)
    (file : UInt32) (start : Nat) :
    Unwinds stack.length
      (spanned file start
      (Markup.streamFrom content stack scope input).events) := by
  -- along the text: a tag that is its own end opens an element and closes it at
  -- once
  fun_induction Markup.streamFrom content stack scope input
    generalizing start with
  | case1 stack scope hempty =>
    rw [List.isEmpty_iff.1 hempty]
    exact .outermost .nil
  | case2 => cases h
  | case3 => cases h
  | case4 stack scope b input rest stop hscan _ hlength ih =>
    exact (ih h stop).other _
  | case5 stack scope b input rest stop data hscan _ hlength ih =>
    exact (ih h stop).text _ data
  | case6 stack scope b input rest stop name attributes inner opened hscan
    _ hlength ih =>
    exact ((ih h stop).closed _ _).opened _ _ _
  | case7 stack scope b input rest stop name attributes empty hscan inner opened
    hempty _ hlength ih =>
    exact (ih h stop).opened _ _ _
  | case8 => cases h
  | case9 stack scope b input rest stop name hscan hfault _ hlength ih =>
    cases stack with
    | nil => cases hfault
    | cons top stack => exact (ih h stop).closed _ _

/-- A text that is not malformed is a row of trees. -/
theorem exists_spells
    {content : Text} (h : (Markup.stream content).ending = .complete)
    (file : UInt32) :
    ∃ roots, Spells (spanned file 0 (Markup.stream content).events) roots := by
  cases unwinds_streamFrom h file 0 with
  | outermost hroots => exact ⟨_, hroots⟩

/-! ## Reading all events -/

/-- All events in turn, with nothing that could stop the reading. -/
def Reading.follow (r : Reading) : List (Span × Markup.Event) → Found Reading
  | [] => (r, [])
  | (span, e) :: es =>
    let (r', found) := r.step span e
    let (r'', more) := r'.follow es
    (r'', found ++ more)

theorem Reading.follow_append (r : Reading)
    (es es' : List (Span × Markup.Event)) :
    r.follow (es ++ es') =
      (((r.follow es).1.follow es').1, (r.follow es).2 ++
      ((r.follow es).1.follow es').2) := by
  induction es generalizing r with
  | nil => rfl
  | cons e es ih => simp [Reading.follow, ih]

/-- A reading comes to its end only in a text that is not malformed and with
every offset in bounds. -/
theorem Reading.fits_of_run
    {file : UInt32} {limit : Int} {ending : Markup.Ending} {last : Nat}
    {r r' : Reading} {span : Span} {start : Nat} {events : List Markup.Located}
    (h : (Reading.run file limit ending last r span start events).1 = some r') :
    ending = .complete ∧ last ≤ limit ∧ ∀ e ∈ events, (e.stop : Int) ≤
      limit := by
  induction events generalizing r span start with
  | nil =>
    unfold Reading.run at h
    split at h
    next => cases h
    next hlast =>
      cases ending with
      | complete => exact ⟨rfl, Int.not_lt.1 hlast, by simp⟩
      | failed fault line => cases h
  | cons e es ih =>
    rw [Reading.run] at h
    split at h
    next => cases h
    next hstop =>
      obtain ⟨hending, hlast, hes⟩ := ih h
      exact ⟨hending, hlast, List.forall_mem_cons.2 ⟨Int.not_lt.1 hstop, hes⟩⟩

/-- Nothing else stops a reading. -/
theorem Reading.run_complete
    {limit : Int} {last : Nat} {events : List Markup.Located}
    (hlast : last ≤ limit) (hfits : ∀ e ∈ events, (e.stop : Int) ≤ limit)
    (file : UInt32) (r : Reading) (span : Span) (start : Nat) :
    Reading.run file limit .complete last r span start events =
      (some (r.follow (spanned file start events)).1,
      (r.follow (spanned file start events)).2) := by
  induction events generalizing r span start with
  | nil =>
    rw [Reading.run.eq_def]
    simp [Int.not_lt.2 hlast, spanned, Reading.follow]
  | cons e es ih =>
    rw [List.forall_mem_cons] at hfits
    rw [Reading.run.eq_def]
    simp [Int.not_lt.2 hfits.1, ih hfits.2, spanned, Reading.follow]

end Document

end ProtocolCorpus
