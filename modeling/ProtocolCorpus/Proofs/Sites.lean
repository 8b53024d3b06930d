import ProtocolCorpus.Proofs.Chain
import ProtocolCorpus.Resolution.Pass

/-!
# The arguments of a document

Resolution visits the arguments of a document one after the other, in the order
of the wire. A site is such an argument with the message and the interface it
stands in. Here the nested visits become one pass along the sites, and the sites
of the resolved document are told from those of the document.
-/

namespace ProtocolCorpus

/-- An argument with the message and the interface it stands in. -/
structure Site where
  interface : Interface
  message : Message
  argument : Argument

def Site.place (protocol : Text) (s : Site) : Coordinates :=
  ⟨protocol, s.interface.name, s.message.name, s.argument.name⟩

def Protocol.sites (p : Protocol) : List Site :=
  p.messages.flatMap fun im => im.2.wireArgs.map fun a => ⟨im.1, im.2, a⟩

def Document.sites (d : Document) : List Site :=
  (d.protocol.map Protocol.sites).getD []

/-- The qualifiers of all references that have a meaning. -/
def Document.qualifiers (d : Document) : List Text :=
  d.sites.flatMap fun s =>
    s.argument.resolvedInterface.toList.map Reference.qualifier ++
      s.argument.resolvedEnum.toList.map fun e => e.qualifier

/-- No reference has been given a meaning yet. -/
def Document.Unresolved (d : Document) : Prop :=
  ∀ s ∈ d.sites, s.argument.resolvedInterface = none ∧ s.argument.resolvedEnum =
    none

instance (d : Document) : Decidable d.Unresolved :=
  inferInstanceAs (Decidable (∀ s ∈ d.sites, _))

theorem Message.wireArgs_perm (m : Message) :
    m.wireArgs.Perm (m.result.toList ++ m.args) := by
  unfold wireArgs
  split
  next hresult =>
    rw [hresult]
    exact List.Perm.refl _
  next a hresult =>
    rw [hresult, Option.toList_some, List.singleton_append]
    refine List.perm_middle.trans ?_
    rw [List.take_append_drop]

namespace Resolution

variable {p : Progress} {r : Registry} {d : Document}

/-! ## One pass along the sites -/

def visitSite (r : Registry) (d : Document) (p : Progress)
    (s : Site) : Progress :=
  visitEnum r d s.interface (s.place (Alias.protocolName d))
    (visitInterface r d (s.place (Alias.protocolName d)) p s.argument)
    s.argument

theorem visit_eq_foldl (r : Registry) (d : Document) :
    visit r d = d.sites.foldl (visitSite r d) {} := by
  unfold visit Document.sites
  cases hprotocol : d.protocol with
  | none => rfl
  | some p =>
    have hname : Alias.protocolName d = p.name := by
      rw [Alias.protocolName, hprotocol]
      rfl
    simp only [Option.map_some, Option.getD_some, Protocol.sites,
      List.foldl_flatMap, List.foldl_map, visitSite, Site.place, hname]
    rfl

theorem failed_need (hp : p.failed = true) (r : Registry) (d : Document)
    (place : Coordinates) (span : Span) (o : Owner) :
    (p.need r d place span o).failed = true := by
  unfold Progress.need
  split
  next => exact hp
  next =>
    split
    next => exact hp
    next =>
      split
      next => exact hp
      next =>
        split
        next => exact hp
        next => rfl

theorem failed_needOwner (hp : p.failed = true) (r : Registry) (d : Document)
    (place : Coordinates) (span : Span) (o? : Option Owner) :
    (p.needOwner r d place span o?).failed = true := by
  cases o? with
  | none => exact hp
  | some o => exact failed_need hp r d place span o

theorem failed_visitEnum (hp : p.failed = true) (r : Registry) (d : Document)
    (i : Interface) (place : Coordinates) (a : Argument) :
    (visitEnum r d i place p a).failed = true := by
  unfold visitEnum
  split
  next => exact hp
  next =>
    split
    next => rfl
    next t _ =>
      have howner := failed_needOwner hp r d place a.span t.owner
      dsimp only
      split
      next => exact howner
      next =>
        split
        next => rfl
        next => exact howner

/-- A document that has not failed after an argument had not failed before, and
the reference of the argument to an interface has a meaning. -/
theorem not_failed_of_visitSite {s : Site}
    (h : (visitSite r d p s).failed = false) :
    p.failed = false ∧
      (s.argument.interface ≠ [] → ∃ t, interface r d s.argument.interface =
      .ok t) := by
  have hmiddle :
      (visitInterface r d (s.place (Alias.protocolName d)) p
      s.argument).failed = false := by
    cases hfailed :
      (visitInterface r d (s.place (Alias.protocolName d)) p s.argument).failed
      with
    | false => rfl
    | true =>
      rw [visitSite, failed_visitEnum hfailed] at h
      cases h
  unfold visitInterface at hmiddle
  split at hmiddle
  next hempty =>
    exact ⟨hmiddle, fun hne => absurd (List.isEmpty_iff.1 hempty) hne⟩
  next =>
    split at hmiddle
    next t hlookup =>
      refine ⟨?_, fun _ => ⟨t, hlookup⟩⟩
      cases hfailed : p.failed with
      | false => rfl
      | true =>
        rw [failed_needOwner hfailed] at hmiddle
        cases hmiddle
    next e _ =>
      have hfailed :
        (p.fail d (s.place (Alias.protocolName d)) s.argument.span e).failed =
        true := rfl
      rw [hfailed] at hmiddle
      cases hmiddle

/-- A pass that does not fail fails on none of its arguments. -/
theorem exists_visit_of_foldl {sites : List Site}
    (h : (sites.foldl (visitSite r d) p).failed = false) :
    p.failed = false ∧ ∀ s ∈ sites, ∃ q, (visitSite r d q s).failed =
      false := by
  induction sites generalizing p with
  | nil => exact ⟨h, fun s hs => by cases hs⟩
  | cons s sites ih =>
    obtain ⟨hstep, hrest⟩ := ih h
    refine ⟨(not_failed_of_visitSite hstep).1, ?_⟩
    intro t ht
    rcases List.mem_cons.1 ht with rfl | ht
    · exact ⟨p, hstep⟩
    · exact hrest t ht

theorem exists_interface_of_foldl {sites : List Site}
    (h : (sites.foldl (visitSite r d) p).failed = false) {s : Site}
    (hs : s ∈ sites) (hne : s.argument.interface ≠ []) :
    ∃ t, interface r d s.argument.interface = .ok t := by
  obtain ⟨q, hq⟩ := (exists_visit_of_foldl h).2 s hs
  exact (not_failed_of_visitSite hq).2 hne

theorem not_failed_of_resolve_ok (hok : (d.resolve r).ok = true) :
    (d.sites.foldl (visitSite r d) {}).failed = false := by
  rw [← visit_eq_foldl]
  simpa [Document.resolve] using hok

theorem found_of_bitfield_withEnum
    {reference : Reference} {i : Option Interface} {enumName : Text}
    (h : (withEnum reference i enumName).bitfield = true) :
    (withEnum reference i enumName).found = true := by
  unfold withEnum at h ⊢
  split at h
  next => rfl
  next => cases h

/-- Only an enumeration that was found can be a bit field. -/
theorem found_of_bitfield {i : Interface} {written : Text} {t : EnumTarget}
    (h : enumeration r d i written = .ok t)
    (hbits : t.reference.bitfield = true) :
    t.reference.found = true := by
  unfold enumeration at h
  split at h
  next =>
    cases h
    exact found_of_bitfield_withEnum hbits
  next =>
    split at h
    next =>
      cases h
      exact found_of_bitfield_withEnum hbits
    next =>
      split at h
      next =>
        cases h
        exact found_of_bitfield_withEnum hbits
      next =>
        obtain ⟨o, -, ht⟩ := Chain.bind_eq_ok_iff.1 h
        cases ht
        exact found_of_bitfield_withEnum hbits

/-- A document that has not failed after an argument has found the enumeration
of the argument, and if it is a bit field the argument is a number. -/
theorem exists_enum_of_visitSite {s : Site}
    (h : (visitSite r d p s).failed = false) (hne : s.argument.enum ≠ []) :
    ∃ t, enumeration r d s.interface s.argument.enum = .ok t ∧
      (t.reference.bitfield = true → s.argument.kind = .uint) := by
  unfold visitSite visitEnum at h
  rw [if_neg (by simpa using hne)] at h
  split at h
  next e _ => cases h
  next t hlookup =>
    refine ⟨t, hlookup, ?_⟩
    intro hbits
    have hfound := found_of_bitfield hlookup hbits
    dsimp only at h
    rw [hfound, hbits, Bool.not_true, if_neg Bool.false_ne_true, Bool.true_and]
      at h
    by_cases hkind : s.argument.kind = .uint
    · exact hkind
    · rw [if_pos (by simpa using hkind)] at h
      cases h

/-! ## The sites of the resolved document -/

/-- The argument with the meaning of its references, in the resolved message and
interface. -/
def resolvedSite (r : Registry) (d : Document) (s : Site) : Site where
  interface := s.interface.mapMessages (message r d s.interface)
  message := message r d s.interface s.message
  argument := argument r d s.interface s.argument

theorem wireArgs_message (r : Registry) (d : Document) (i : Interface)
    (m : Message) :
    (message r d i m).wireArgs = m.wireArgs.map (argument r d i) := by
  unfold Message.wireArgs message
  cases m.result with
  | none => rfl
  | some a => simp

theorem sites_document (r : Registry) (d : Document) :
    (document r d).sites = d.sites.map (resolvedSite r d) := by
  unfold document Document.sites Document.mapProtocol
  cases d.protocol with
  | none => rfl
  | some p =>
    simp only [Option.map_some, Option.getD_some, Protocol.sites,
      Protocol.messages, Interface.messages, Interface.mapMessages,
      List.flatMap_assoc, List.flatMap_map, List.map_flatMap, ← List.map_append,
      List.map_map, Function.comp_def, wireArgs_message]
    rfl

end Resolution

end ProtocolCorpus
