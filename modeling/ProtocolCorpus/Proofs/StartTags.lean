import ProtocolCorpus.Proofs.Elements
import ProtocolCorpus.Proofs.TokenText

/-!
# Where the start tags of a document stand

The span of an event is told by the offsets behind two tokens that follow each
other. For a start tag these are the offsets of its `<` and behind its `>`:
whatever stands between two tags is a token of its own. So the spans of the
start tags cover exactly these tags, and each ends before the next begins.
-/

namespace ProtocolCorpus

def Diagnostic.spans (d : Diagnostic) : List Span :=
  d.span :: d.notes.map Note.span

namespace Document

variable {rest input : Text}

/-! ## Start tags in a text -/

def covered (content : Text) (s : Span) : Text :=
  (content.take s.stop.toNat).drop s.start.toNat

theorem covered_append {front tag : Text} {s : Span}
    (hstart : s.start.toNat = front.length)
    (hstop : s.stop.toNat = front.length + tag.length) :
    covered (front ++ (tag ++ rest)) s = tag := by
  rw [covered, hstart, hstop, ← List.append_assoc, ← List.length_append,
    List.take_left, List.drop_left]

structure Inside (f : Source.File) (s : Span) : Prop where
  file : s.file = f.id
  le : s.start ≤ s.stop
  stop_le : s.stop.toNat ≤ f.content.length

/-- The span of a start tag covers it exactly, from `<` to `>`: read alone, the
bytes are this tag and nothing is left. Name spaces are not compared, since they
are looked up when the tag has been read. -/
structure Attributes.Written (f : Source.File) (tag : Attributes) : Prop where
  inside : Inside f tag.span
  covers : ∃ inner n attributes empty, covered f.content tag.span =
    0x3C :: (inner ++ [0x3E]) ∧
    Markup.TagText (covered f.content tag.span) n attributes empty ∧
    Markup.Token.scan 0x3C (inner ++ [0x3E]) =
    .ok (.opening n attributes empty, []) ∧
    n.localName = tag.element ∧
    attributes.map (fun a => (a.name.localName, a.value)) =
    tag.attributes.map fun a => (a.name.localName, a.value)

theorem localName_resolve (scope : Markup.Scope) (isElement : Bool)
    (n : Markup.Name) :
    (scope.resolve isElement n).localName = n.localName := by
  unfold Markup.Scope.resolve
  split_ifs <;> rfl

/-- A tag at the front of what is left of a file is covered by the span up to
what it leaves. -/
theorem written_of_tagText {f : Source.File} {front tag : Text}
    {n : Markup.Name} {attributes : List Markup.Attribute} {empty : Bool}
    (hsize : f.content.length < UInt32.size)
    (hcontent : f.content = front ++ (tag ++ rest))
    (htag : Markup.TagText tag n attributes empty) (scope : Markup.Scope) :
    Attributes.Written f
      ⟨(scope.resolve true n).localName, attributes.map fun a => { a with
          name := scope.resolve false a.name },
        spanBetween f.id front.length (front.length + tag.length)⟩ := by
  have hlength : f.content.length = front.length + tag.length +
      rest.length := by
    simp [hcontent, Nat.add_assoc]
  have hstart : (UInt32.ofNat front.length).toNat = front.length :=
    UInt32.toNat_ofNat_of_lt' (by omega)
  have hstop : (UInt32.ofNat (front.length + tag.length)).toNat =
    front.length + tag.length :=
    UInt32.toNat_ofNat_of_lt' (by omega)
  have hcovered :
      covered f.content
      (spanBetween f.id front.length (front.length + tag.length)) = tag := by
    rw [hcontent]
    exact covered_append hstart hstop
  constructor
  case inside =>
    refine ⟨rfl, ?_, ?_⟩
    · rw [UInt32.le_iff_toNat_le, spanBetween, hstart, hstop]
      omega
    · rw [spanBetween, hstop]
      omega
  case covers =>
    obtain ⟨inner, hinner⟩ := htag.exists_bracketed
    have halone :=
      Markup.scan_opening_iff.2 ⟨tag, htag, by rw [List.append_nil, hinner]⟩
    rw [hcovered]
    exact ⟨inner, n, attributes, empty, hinner, htag, halone,
      (localName_resolve scope true n).symm,
      by simp [localName_resolve]⟩

/-! ## The start tags of a stream -/

def startTag? : Span × Markup.Event → Option Attributes
  | (span, .opened name attributes) => some ⟨name.localName, attributes, span⟩
  | _ => none

/-- Start tags one behind the other from an offset on, each where its span says.
-/
structure InRow (f : Source.File) (start : Nat) (tags : List Attributes) :
    Prop where
  written : ∀ tag ∈ tags, tag.Written f
  start_le : ∀ tag ∈ tags, start ≤ tag.span.start.toNat
  pairwise : tags.Pairwise fun a b => a.span.stop ≤ b.span.start

namespace InRow

variable {f : Source.File} {start stop : Nat} {tag : Attributes}
  {tags : List Attributes}

theorem nil : InRow f start [] :=
  ⟨by simp, by simp, .nil⟩

theorem of_le
    (h : InRow f stop tags) (hle : start ≤ stop) :
    InRow f start tags where
  written := h.written
  start_le a ha := hle.trans (h.start_le a ha)
  pairwise := h.pairwise

theorem cons
    (h : InRow f tag.span.stop.toNat tags) (htag : tag.Written f)
    (hstart : tag.span.start.toNat = start) :
    InRow f start (tag :: tags) where
  written := List.forall_mem_cons.2 ⟨htag, h.written⟩
  start_le := by
    have hle := UInt32.le_iff_toNat_le.1 htag.inside.le
    refine List.forall_mem_cons.2 ⟨hstart.ge, fun a ha => ?_⟩
    exact hstart ▸ hle.trans (h.start_le a ha)
  pairwise :=
    List.pairwise_cons.2
      ⟨fun a ha => UInt32.le_iff_toNat_le.2 (h.start_le a ha), h.pairwise⟩

end InRow

/-- An opening tag puts its start tag in front of those behind it. -/
theorem InRow.cons_of_scan {f : Source.File} {b : UInt8} {n : Markup.Name}
    {attributes : List Markup.Attribute} {empty : Bool} {tags : List Attributes}
    (hsize : f.content.length < UInt32.size) (hinput : b :: input <:+ f.content)
    (hscan : Markup.Token.scan b input =
      .ok (.opening n attributes empty, rest))
    (h : InRow f (f.content.length - rest.length) tags) (scope : Markup.Scope) :
    InRow f (f.content.length - (b :: input).length)
      (⟨(scope.resolve true n).localName, attributes.map fun a => { a with
          name := scope.resolve false a.name },
        spanBetween f.id (f.content.length - (b :: input).length)
        (f.content.length - rest.length)⟩ :: tags) := by
  obtain ⟨tag, htag, hread⟩ := Markup.scan_opening_iff.1 hscan
  obtain ⟨front, hcontent⟩ := hinput
  rw [hread] at hcontent ⊢
  have hlength : f.content.length =
      front.length + (tag.length + rest.length) := by
    simp [← hcontent]
  have hstart : f.content.length - (tag ++ rest).length = front.length := by
    rw [List.length_append]
    omega
  have hstop : f.content.length - rest.length = front.length + tag.length := by
    omega
  rw [hstop] at h ⊢
  rw [hstart]
  refine InRow.cons ?_ (written_of_tagText hsize hcontent.symm htag scope) ?_
  · rwa [spanBetween, UInt32.toNat_ofNat_of_lt' (by omega)]
  · rw [spanBetween, UInt32.toNat_ofNat_of_lt' (by omega)]

/-- The start tags of what is left of a file stand one behind the other. -/
theorem inRow_streamFrom {f : Source.File}
    (hsize : f.content.length < UInt32.size) (hinput : input <:+ f.content)
    (stack : List Markup.OpenElement) (scope : Markup.Scope) :
    InRow f (f.content.length - input.length)
      ((spanned f.id (f.content.length - input.length)
        (Markup.streamFrom f.content stack scope input).events).filterMap
        startTag?) := by
  have hstep : ∀ {b : UInt8} {input rest : Text} {token : Markup.Token},
      b :: input <:+ f.content →
      Markup.Token.scan b input = .ok (token, rest) →
        rest <:+ f.content ∧ f.content.length - (b :: input).length ≤
        f.content.length - rest.length := by
    intro b input rest token hinput hscan
    have hsuffix := Markup.suffix_of_scan hscan
    have hlength := hsuffix.length_le
    exact ⟨(hsuffix.trans (List.suffix_cons b input)).trans
      hinput, by rw [List.length_cons]; omega⟩
  fun_induction Markup.streamFrom f.content stack scope input with
  | case1 => exact .nil
  | case2 => exact .nil
  | case3 => exact .nil
  | case4 stack scope b input rest stop hscan _ hlength ih =>
    obtain ⟨hrest, hle⟩ := hstep hinput hscan
    exact (ih hrest).of_le hle
  | case5 stack scope b input rest stop data hscan _ hlength ih =>
    obtain ⟨hrest, hle⟩ := hstep hinput hscan
    exact (ih hrest).of_le hle
  | case6 stack scope b input rest stop name attributes inner opened hscan
    _ hlength ih =>
    exact (ih (hstep hinput hscan).1).cons_of_scan hsize hinput hscan inner
  | case7 stack scope b input rest stop name attributes empty hscan inner opened
    hempty _ hlength ih =>
    exact (ih (hstep hinput hscan).1).cons_of_scan hsize hinput hscan inner
  | case8 => exact .nil
  | case9 stack scope b input rest stop name hscan hfault _ hlength ih =>
    obtain ⟨hrest, hle⟩ := hstep hinput hscan
    exact (ih hrest).of_le hle

def startTags (f : Source.File) : List Attributes :=
  (spanned f.id 0 (Markup.stream f.content).events).filterMap startTag?

theorem inRow_startTags
    {f : Source.File} (hsize : f.content.length < UInt32.size) :
    InRow f 0 (startTags f) := by
  have hrow := inRow_streamFrom hsize (List.suffix_refl f.content) [] []
  rwa [Nat.sub_self] at hrow

theorem stop_streamFrom {content : Text} {stack : List Markup.OpenElement}
    {scope : Markup.Scope}
    (h : (Markup.streamFrom content stack scope input).ending = .complete) :
    (Markup.streamFrom content stack scope input).stop = content.length := by
  fun_induction Markup.streamFrom content stack scope input with
  | case1 => rfl
  | case2 => cases h
  | case3 => cases h
  | case4 stack scope b input rest stop hscan _ hlength ih => exact ih h
  | case5 stack scope b input rest stop data hscan _ hlength ih => exact ih h
  | case6 stack scope b input rest stop name attributes inner opened hscan
    _ hlength ih => exact ih h
  | case7 stack scope b input rest stop name attributes empty hscan inner opened
    hempty _ hlength ih => exact ih h
  | case8 => cases h
  | case9 stack scope b input rest stop name hscan hfault _ hlength ih =>
    exact ih h

/-! ## The start tags of a tree -/

mutual

def Node.tags : Node → List Attributes
  | .text _ => []
  | .element tag children => tag :: tagsIn children

def tagsIn : List Node → List Attributes
  | [] => []
  | n :: ns => n.tags ++ tagsIn ns

end

theorem tagsIn_eq_flatMap (ns : List Node) :
    tagsIn ns = ns.flatMap Node.tags := by
  induction ns with
  | nil => rfl
  | cons n ns ih => rw [tagsIn, ih, List.flatMap_cons]

theorem Spells.filterMap_startTag?
    {es : List (Span × Markup.Event)} {ns : List Node} (h : Spells es ns) :
    es.filterMap startTag? = tagsIn ns := by
  induction h with
  | nil => rfl
  | other span hes ih => exact ih
  | text span data hes ih => exact ih
  | element span span' name name' attributes hinner hes ihinner ihes =>
    have hopened : startTag? (span, .opened name attributes) =
      some ⟨name.localName, attributes, span⟩ := rfl
    have hclosed : startTag? (span', .closed name') = none := rfl
    rw [List.filterMap_cons_some hopened, List.filterMap_append,
      List.filterMap_cons_none hclosed, ihinner, ihes, tagsIn, Node.tags,
      List.cons_append]

/-! ## Findings -/

/-- The findings are about the start tag and point at nothing else. -/
def Attributes.Reported (tag : Attributes) (found : List Diagnostic) : Prop :=
  ∀ d ∈ found, d.spans = [tag.span]

namespace Attributes

variable (a : Attributes) (c : Coordinates)

theorem Reported.nil : a.Reported [] := by
  simp [Reported]

variable {a} in
theorem Reported.append
    {found more : List Diagnostic} (hfound : a.Reported found)
    (hmore : a.Reported more) :
    a.Reported (found ++ more) :=
  List.forall_mem_append.2 ⟨hfound, hmore⟩

theorem reported_error (code : Code) (message : Text) :
    a.Reported [.error code a.span c message] := by
  simp [Reported, Diagnostic.spans, Diagnostic.error]

theorem reported_warning (code : Code) (message : Text) :
    a.Reported [.warning code a.span c message] := by
  simp [Reported, Diagnostic.spans, Diagnostic.warning]

theorem reported_required (name : Text) :
    a.Reported (a.required c name).2 := by
  unfold required
  split
  · split
    · exact a.reported_error c _ _
    · exact .nil a
  · exact a.reported_error c _ _

theorem reported_boolean (name : Text) :
    a.Reported (a.boolean c name).2 := by
  unfold boolean
  split
  · exact .nil a
  · split_ifs
    · exact .nil a
    · exact .nil a
    · exact a.reported_error c _ _

theorem reported_version (name : Text) (absent : Int) :
    a.Reported (a.version c name absent).2 := by
  unfold version
  split
  · exact .nil a
  · split
    · split_ifs
      · exact a.reported_error c _ _
      · exact .nil a
    · exact a.reported_error c _ _

theorem reported_openProtocol :
    a.Reported (openProtocol a c).2 :=
  a.reported_required c "name"

theorem reported_openInterface :
    a.Reported (openInterface a c).2 := by
  unfold openInterface
  refine ((a.reported_required c "name").append
    (a.reported_required _ "version")).append ?_
  split_ifs
  · exact a.reported_version _ "version" 1
  · exact .nil a

theorem reported_openMessage (kind : MessageKind) :
    a.Reported (openMessage kind a c).2 := by
  unfold openMessage
  refine (((a.reported_required c "name").append ?_).append
    (a.reported_version _ "since" 1)).append
    (a.reported_version _ "deprecated-since" 0)
  split
  · split_ifs
    · exact .nil a
    · exact a.reported_warning _ _ _
  · exact .nil a

theorem reported_openArgument :
    a.Reported (openArgument a c).2 := by
  unfold openArgument
  refine (((a.reported_required c "name").append
    (a.reported_required _ "type")).append ?_).append
    (a.reported_boolean _ "allow-null")
  split
  · exact a.reported_error _ _ _
  · exact .nil a

theorem reported_openEnumeration :
    a.Reported (openEnumeration a c).2 :=
  ((a.reported_required c "name").append
    (a.reported_boolean c "bitfield")).append (a.reported_version c "since" 1)

theorem reported_openEntry :
    a.Reported (openEntry a c).2 := by
  unfold openEntry
  refine (((a.reported_required c "name").append
    (a.reported_required c "value")).append ?_).append
    (a.reported_version c "since" 1)
  split
  · exact a.reported_error _ _ _
  · exact .nil a

theorem reported_unexpectedElement (parent : Option Frame) :
    a.Reported [unexpectedElement parent a c] := by
  cases parent with
  | none => exact a.reported_error c _ _
  | some f => exact a.reported_warning c _ _

/-- Whatever is found when an element is opened is found at its start tag. -/
theorem reported_opened (r : Reading) :
    a.Reported (r.opened a).2 := by
  unfold Reading.opened
  dsimp only
  split
  case h_1 => exact a.reported_openProtocol _
  case h_2 => exact .nil a
  case h_3 =>
    have hrequired := a.reported_required r.coordinates "name"
    split <;> exact hrequired
  case h_4 => exact a.reported_openInterface _
  case h_5 kind _ => exact a.reported_openMessage _ kind
  case h_6 => exact a.reported_openArgument _
  case h_7 => exact a.reported_openEnumeration _
  case h_8 => exact a.reported_openEntry _
  case h_9 => exact .nil a
  case h_10 => exact .nil a
  case h_11 => exact a.reported_unexpectedElement _ _

end Attributes

theorem exists_startTag_of_step
    {r : Reading} {span : Span} {e : Markup.Event} {d : Diagnostic}
    (hd : d ∈ (r.step span e).2) :
    ∃ tag, startTag? (span, e) = some tag ∧ d.spans = [tag.span] := by
  cases e with
  | opened name attributes =>
    exact ⟨_, rfl, Attributes.reported_opened _ r d hd⟩
  | _ => cases hd

/-- Every finding in a row of events is about one of the start tags. -/
theorem exists_startTag_of_follow
    {r : Reading} {es : List (Span × Markup.Event)} {d : Diagnostic}
    (hd : d ∈ (r.follow es).2) :
    ∃ tag ∈ es.filterMap startTag?, d.spans = [tag.span] := by
  induction es generalizing r with
  | nil => cases hd
  | cons e es ih =>
    rcases List.mem_append.1 hd with hhere | hmore
    · obtain ⟨tag, htag, hspans⟩ := exists_startTag_of_step hhere
      exact ⟨tag, List.mem_filterMap.2 ⟨e, List.mem_cons_self, htag⟩, hspans⟩
    · obtain ⟨tag, htag, hspans⟩ := ih hmore
      obtain ⟨e', he', heq⟩ := List.mem_filterMap.1 htag
      exact ⟨tag, List.mem_filterMap.2 ⟨e', List.mem_cons_of_mem e he', heq⟩,
        hspans⟩

end Document

end ProtocolCorpus
