import Mathlib.Data.List.Forall2
import ProtocolCorpus.Interchange.Conversion
import ProtocolCorpus.Proofs.Reading
import ProtocolCorpus.Proofs.ResolvedLayout
import ProtocolCorpus.Proofs.Results

/-!
# The type table that other programs see

The interchange form of a document shows the references of its messages twice:
with the arguments, as resolution left them, and in the type table, as layout
collected them. Layout passes over a reference that the kind of its argument
does not allow, and resolution leaves alone an argument that writes none. So the
two agree on the documents that validation lets pass and in which nothing but a
written reference has a meaning, such as all that were read.
-/

namespace ProtocolCorpus

variable {d : Document}

/-! ## What a reader of the interchange form relies on -/

namespace Interchange

/-- The reference of an argument in print; nothing if there is none. -/
def Argument.printed (a : Argument) : Text :=
  match a.interface with
  | some r => if r.qualifier = [] then r.name else r.qualifier ++ "." ++ r.name
  | none => []

/-- The values of a message in the order of their slots: the result first, then
the arguments. -/
def Message.values (m : Message) : List Argument :=
  m.result.toList ++ m.args

def Document.messages (d : Document) : List Message :=
  (d.interfaces.getD []).flatMap fun i => i.requests ++ i.events

def Document.slot? (d : Document) (index : Int) : Option Text :=
  d.typeTable.bind fun table => table[index.toNat]?

/-- The argument has the name of `a`, and a reference if and only if `a` means
something: the same one. -/
structure Argument.Tells (out : Argument) (a : ProtocolCorpus.Argument) :
    Prop where
  name_eq : out.name = a.name
  isSome_eq : out.interface.isSome = a.resolvedInterface.isSome
  printed_eq : ∀ t ∈ a.resolvedInterface, out.printed = t.describe

/-- The message is `m` with the place that layout gave it. -/
structure Message.Tells (out : Message) (m : ProtocolCorpus.Message) :
    Prop where
  name_eq : out.name = m.name
  allNull_eq : out.allNull = m.placement.allNull
  typeIndex_eq : out.typeIndex = m.placement.typeIndex
  values : List.Forall₂ Argument.Tells out.values (m.result.toList ++ m.args)

/-- The document shows the messages and the table of the protocol. -/
structure Document.Tells (out : Document) (p : Protocol) : Prop where
  messages : List.Forall₂ Message.Tells out.messages p.walk
  nullRun_eq : out.nullRun = p.nullRun
  typeTable_eq : out.typeTable =
    some (p.typeTable.map fun t =>
      (t.map ProtocolCorpus.Reference.describe).getD [])

/-- The table of a document and its messages tell the same. -/
structure Document.Consistent (d : Document) : Prop where
  interfaces_isSome : d.interfaces.isSome = true
  /-- The slots of a message with a type show what its values refer to, one
  after the other. -/
  typed : ∀ m ∈ d.messages, m.allNull = false →
    0 ≤ m.typeIndex ∧
      ∀ (k : Nat) (a : Argument), m.values[k]? = some a →
        d.slot? (m.typeIndex + k) = some a.printed
  /-- A message without types refers to nothing and fits the run. -/
  untyped : ∀ m ∈ d.messages, m.allNull = true →
    (∀ a ∈ m.values, a.interface = none) ∧ (m.values.length : Int) ≤ d.nullRun
  run : ∀ k : Nat, (k : Int) < d.nullRun → d.slot? k = some []

end Interchange

/-- Nothing but a written reference has a meaning. -/
def Document.MeansWritten (d : Document) : Prop :=
  ∀ s ∈ d.sites, s.argument.interface = [] → s.argument.resolvedInterface = none

instance (d : Document) : Decidable d.MeansWritten :=
  inferInstanceAs (Decidable (∀ s ∈ d.sites, _))

theorem Document.meansWritten_of_read {limit : Int} {f : Source.File}
    (h : (Document.read limit f).1 = some d) :
    d.MeansWritten := by
  obtain ⟨p, hp, hfresh⟩ := Document.fresh_of_read_eq_some h
  have hunresolved : d.Unresolved := by
    refine Document.unresolved_of_walk hp ?_
    intro m hm
    obtain ⟨i, hi, hm⟩ := List.mem_flatMap.1 hm
    exact (hfresh i hi m hm).unresolved
  exact fun s hs _ => (hunresolved s hs).1

/-- The type of the argument in the table is what its reference means. -/
def Argument.Shown (a : Argument) : Prop :=
  a.slotType = a.resolvedInterface

theorem Argument.shown_of_allowed
    {a : Argument} (hallowed : a.interface ≠ [] → a.kind.allowsInterface = true)
    (hmeant : a.interface = [] → a.resolvedInterface = none) :
    a.Shown := by
  unfold Shown slotType
  by_cases hwritten : a.interface = []
  · rw [hmeant hwritten, ite_self]
  · rw [if_pos]
    simp [hallowed hwritten, hwritten]

/-! ## Validation -/

namespace Validation

theorem allowed_of_argument_eq_nil
    {outer : Coordinates} {a : Argument} (h : argument outer a = []) :
    a.interface ≠ [] → a.kind.allowsInterface = true := by
  intro hwritten
  by_contra hkind
  simp [argument, hwritten, hkind] at h

theorem allowed_of_messages_eq_nil
    {protocol interface : Text} {earlier : List Text} {ms : List Message}
    (h : messages protocol interface earlier ms = []) :
    ∀ m ∈ ms, ∀ a ∈ m.wireArgs, a.interface ≠ [] → a.kind.allowsInterface =
      true := by
  induction ms generalizing earlier with
  | nil =>
    intro m hm
    cases hm
  | cons n ms ih =>
    intro m hm a ha
    rw [messages, List.append_eq_nil_iff] at h
    obtain ⟨hhead, htail⟩ := h
    rcases List.mem_cons.1 hm with rfl | hm
    · simp only [message, List.append_eq_nil_iff, List.flatMap_eq_nil_iff]
        at hhead
      exact allowed_of_argument_eq_nil (hhead.1.2 a ha)
    · exact ih htail m hm a ha

/-- Validation looks into every interface unless it finds one twice. -/
theorem allowed_of_interfaces_eq_nil
    {protocol : Text} {earlier is : List Interface}
    (h : (interfaces protocol earlier is).1 = []) :
    ∀ i ∈ is, ∀ m ∈ i.messages, ∀ a ∈ m.wireArgs, a.interface ≠ [] →
      a.kind.allowsInterface = true := by
  induction is generalizing earlier with
  | nil =>
    intro i hi
    cases hi
  | cons j is ih =>
    intro i hi m hm
    rw [interfaces] at h
    split at h
    next => cases h
    next =>
      obtain ⟨hhead, htail⟩ := List.append_eq_nil_iff.1 h
      rcases List.mem_cons.1 hi with rfl | hi
      · simp only [interface, List.append_eq_nil_iff] at hhead
        rcases List.mem_append.1 hm with hm | hm
        · exact allowed_of_messages_eq_nil hhead.1.2 m hm
        · exact allowed_of_messages_eq_nil hhead.2 m hm
      · exact ih htail i hi m hm

end Validation

/-- A valid document has references only where the kind of the argument allows
them. -/
theorem Document.allowed_of_valid (h : d.validate.valid = true) :
    ∀ s ∈ d.sites, s.argument.interface ≠ [] → s.argument.kind.allowsInterface =
    true := by
  intro s hs
  cases hprotocol : d.protocol with
  | none =>
    rw [validate, hprotocol] at h
    cases h
  | some p =>
    rw [validate_of_protocol hprotocol] at h
    have hfindings : (Validation.protocol p).1 = [] := List.isEmpty_iff.1 h
    have hinterfaces : (Validation.interfaces p.name [] p.interfaces).1 = [] :=
      (List.append_eq_nil_iff.1 hfindings).2
    rw [sites, hprotocol] at hs
    obtain ⟨⟨i, m⟩, him, hs⟩ := List.mem_flatMap.1 hs
    obtain ⟨a, ha, rfl⟩ := List.mem_map.1 hs
    obtain ⟨j, hj, him⟩ := List.mem_flatMap.1 him
    obtain ⟨n, hn, hpair⟩ := List.mem_map.1 him
    obtain ⟨rfl, rfl⟩ := Prod.mk.inj hpair
    exact Validation.allowed_of_interfaces_eq_nil hinterfaces j hj n hn a ha

/-! ## From the document to its layout -/

theorem Protocol.forall_mem_sites_iff
    {p : Protocol} {P : Argument → Prop} :
    (∀ s ∈ p.sites, P s.argument) ↔ ∀ m ∈ p.walk, ∀ a ∈ m.wireArgs, P a := by
  have hsites := p.map_argument_sites
  constructor
  · intro h m hm a ha
    have hmem : a ∈ p.sites.map Site.argument := by
      rw [hsites]
      exact List.mem_flatMap_of_mem hm ha
    obtain ⟨s, hs, rfl⟩ := List.mem_map.1 hmem
    exact h s hs
  · intro h s hs
    have hmem : s.argument ∈ p.walk.flatMap Message.wireArgs := by
      rw [← hsites]
      exact List.mem_map_of_mem hs
    obtain ⟨m, hm, ha⟩ := List.mem_flatMap.1 hmem
    exact h m hm _ ha

theorem Document.forall_mem_sites_validate {P : Argument → Prop}
    (h : ∀ s ∈ d.sites, P s.argument) :
    ∀ s ∈ d.validate.document.sites, P s.argument := by
  cases hprotocol : d.protocol with
  | none =>
    rw [validate, hprotocol]
    exact h
  | some p =>
    have hsites : d.validate.document.sites =
        (Validation.protocol p).2.sites := by
      rw [validate_of_protocol hprotocol]
      rfl
    rw [sites, hprotocol] at h
    rw [hsites]
    have hwalk := Protocol.forall_mem_sites_iff.1 h
    refine Protocol.forall_mem_sites_iff.2 ?_
    intro m hm
    obtain ⟨i', hi', hm⟩ := List.mem_flatMap.1 hm
    obtain ⟨i, hi, rfl | rfl⟩ := Validation.exists_of_mem_interfaces hi'
    · exact hwalk m (List.mem_flatMap_of_mem hi hm)
    · rw [Interface.messages_mapMessages, List.mem_map] at hm
      obtain ⟨n, hn, rfl⟩ := hm
      exact fun a ha =>
        hwalk n (List.mem_flatMap_of_mem hi hn) a
          (n.wireArgs_normalize_perm.mem_iff.1 ha)

/-- Resolution gives a meaning only to what is written, so that the table shows
it. -/
theorem Document.shown_of_resolve
    (hallowed : ∀ s ∈ d.sites, s.argument.interface ≠ [] →
      s.argument.kind.allowsInterface = true)
    (hmeant : d.MeansWritten) (r : Registry) :
    ∀ s ∈ (d.resolve r).document.sites, s.argument.Shown := by
  intro s' hs'
  have hsites : (d.resolve r).document.sites =
    d.sites.map (Resolution.resolvedSite r d) :=
    Resolution.sites_document r d
  rw [hsites] at hs'
  obtain ⟨s, hs, rfl⟩ := List.mem_map.1 hs'
  refine Argument.shown_of_allowed (hallowed s hs) ?_
  intro hempty
  have hunwritten : s.argument.interface = [] := hempty
  have hkept : (Resolution.resolvedSite r d s).argument.resolvedInterface =
      s.argument.resolvedInterface := by
    simp [Resolution.resolvedSite, Resolution.argument, hunwritten]
  rw [hkept, hmeant s hs hunwritten]

open Layout in
theorem Protocol.shown_of_layOut
    {p q : Protocol} (h : p.layOut = .ok q)
    (hshown : ∀ m ∈ p.walk, ∀ a ∈ m.result.toList ++ m.args, a.Shown) :
    ∀ m ∈ q.walk, ∀ a ∈ m.result.toList ++ m.args, a.Shown := by
  obtain ⟨-, ⟨stop, hplaced⟩, -, -⟩ := placed_of_layOut h rfl
  refine forall_of_map_unindexed_eq (fun _ => Iff.rfl) hplaced.unindexed_eq ?_
  intro m hm
  rw [p.walk_mapMessages withTypes] at hm
  obtain ⟨n, hn, rfl⟩ := List.mem_map.1 hm
  exact hshown n hn

/-! ## The interchange form -/

namespace Interchange

theorem values_ofMessage (m : ProtocolCorpus.Message) :
    (ofMessage m).values = (m.result.toList ++ m.args).map ofArgument := by
  rw [List.map_append]
  unfold Message.values ofMessage
  cases m.result with
  | none => rfl
  | some a => rfl

theorem printed_ofArgument_of_some
    {a : ProtocolCorpus.Argument} {t : ProtocolCorpus.Reference}
    (h : a.resolvedInterface = some t) :
    (ofArgument a).printed = t.describe := by
  unfold Argument.printed ofArgument
  rw [h]
  by_cases hlocal : t.qualifier = []
  · simp [Reference.describe, hlocal]
  · simp [Reference.describe, hlocal]

theorem tells_ofArgument (a : ProtocolCorpus.Argument) :
    (ofArgument a).Tells a := by
  refine ⟨rfl, ?_, fun t ht => printed_ofArgument_of_some ht⟩
  rw [ofArgument, Option.isSome_map]

theorem tells_ofMessage (m : ProtocolCorpus.Message) :
    (ofMessage m).Tells m := by
  refine ⟨rfl, rfl, rfl, ?_⟩
  rw [values_ofMessage, List.forall₂_map_left_iff, List.forall₂_same]
  exact fun a _ => tells_ofArgument a

/-- The messages of the interchange form are those of the walk. -/
theorem Document.messages_eq_map
    {d : Document} {q : Protocol}
    (h : d.interfaces = some (q.interfaces.map ofInterface)) :
    d.messages = q.walk.map ofMessage := by
  rw [Document.messages, h, Option.getD_some, Protocol.walk, List.flatMap_map,
    List.map_flatMap]
  simp only [ofInterface, ← List.map_append]
  rfl

theorem tells_of_interfaces
    {d : Document} {q : Protocol}
    (hinterfaces : d.interfaces = some (q.interfaces.map ofInterface))
    (hrun : d.nullRun = q.nullRun)
    (htable : d.typeTable = some (q.typeTable.map ofSlot)) :
    d.Tells q := by
  refine ⟨?_, hrun, ?_⟩
  · rw [Document.messages_eq_map hinterfaces, List.forall₂_map_left_iff,
      List.forall₂_same]
    exact fun m _ => tells_ofMessage m
  · rw [htable]
    refine congrArg some (List.map_congr_left ?_)
    intro t _
    cases t with
    | none => rfl
    | some r => rfl

theorem printed_ofArgument
    {a : ProtocolCorpus.Argument} (ha : a.Shown) :
    (ofArgument a).printed = ofSlot a.slotType := by
  rw [show a.slotType = a.resolvedInterface from ha]
  cases hmeaning : a.resolvedInterface with
  | none =>
    unfold Argument.printed ofArgument
    rw [hmeaning]
    rfl
  | some t => exact printed_ofArgument_of_some hmeaning

theorem interface_ofArgument
    {a : ProtocolCorpus.Argument} (ha : a.Shown) (hnone : a.slotType = none) :
    (ofArgument a).interface = none := by
  have hmeaning : a.resolvedInterface = none := Eq.trans (Eq.symm ha) hnone
  rw [ofArgument, hmeaning]
  rfl

/-- A sound table in print. -/
theorem consistent_of_sound
    {q : Protocol} (hsound : Layout.Sound q)
    (hshown : ∀ m ∈ q.walk, ∀ a ∈ m.result.toList ++ m.args, a.Shown)
    {d : Document} (htable : d.typeTable = some (q.typeTable.map ofSlot))
    (hrun : d.nullRun = q.nullRun)
    (hinterfaces : d.interfaces = some (q.interfaces.map ofInterface)) :
    d.Consistent := by
  have hmessages := Document.messages_eq_map hinterfaces
  have hslot : ∀ n : Nat, d.slot? n = (q.typeTable[n]?).map ofSlot := by
    intro n
    rw [Document.slot?, htable, Option.bind_some, Int.toNat_natCast,
      List.getElem?_map]
  constructor
  case interfaces_isSome => rw [hinterfaces, Option.isSome_some]
  case typed =>
    intro m' hm' hfalse
    rw [hmessages] at hm'
    obtain ⟨m, hm, rfl⟩ := List.mem_map.1 hm'
    have hsome : ¬m.Untyped := by
      intro huntyped
      have hnull := (hsound.untyped m hm huntyped).1
      rw [show m.placement.allNull = false from hfalse] at hnull
      cases hnull
    refine ⟨Int.natCast_nonneg _, ?_⟩
    intro k a' ha'
    rw [values_ofMessage, List.getElem?_map, Option.map_eq_some_iff] at ha'
    obtain ⟨a, ha, rfl⟩ := ha'
    have hrange := (hsound.typed m hm hsome).2
    have htype : m.slotTypes[k]? = some a.slotType := by
      rw [Message.slotTypes, List.getElem?_map, ha, Option.map_some]
    have hk : k < m.slotTypes.length := (List.getElem?_eq_some_iff.1 htype).1
    rw [← hrange, List.getElem?_take_of_lt hk, List.getElem?_drop] at htype
    have hindex : (ofMessage m).typeIndex + k =
      ((m.placement.typeIndex + k : Nat) : Int) := rfl
    rw [hindex, hslot, htype, Option.map_some,
      printed_ofArgument (hshown m hm a (List.mem_of_getElem? ha))]
  case untyped =>
    intro m' hm' htrue
    rw [hmessages] at hm'
    obtain ⟨m, hm, rfl⟩ := List.mem_map.1 hm'
    have huntyped : m.Untyped := by
      by_contra hsome
      have hnull := (hsound.typed m hm hsome).1
      rw [show m.placement.allNull = true from htrue] at hnull
      cases hnull
    rw [values_ofMessage, hrun, List.length_map]
    constructor
    · intro a' ha'
      obtain ⟨a, ha, rfl⟩ := List.mem_map.1 ha'
      exact interface_ofArgument (hshown m hm a ha)
        (huntyped _ (List.mem_map_of_mem ha))
    · have hle := (hsound.untyped m hm huntyped).2.2
      rw [Message.slotTypes, List.length_map] at hle
      exact Int.ofNat_le.2 hle
  case run =>
    intro k hk
    rw [hrun] at hk
    have hk : k < q.nullRun := Int.ofNat_lt.1 hk
    have hempty : q.typeTable[k]? = some none := by
      rw [← List.getElem?_take_of_lt hk, hsound.take_nullRun,
        List.getElem?_replicate, if_pos hk]
    rw [hslot, hempty]
    rfl

theorem exists_protocol_of_valid
    {d : ProtocolCorpus.Document} (h : d.validate.valid = true) (r : Registry) :
    ∃ p, (d.validate.document.resolve r).document.protocol = some p := by
  cases hprotocol : d.protocol with
  | none =>
    rw [Document.validate, hprotocol] at h
    cases h
  | some p =>
    rw [Document.validate, hprotocol]
    exact ⟨_, rfl⟩

/-- In the interchange form of a corpus, every document that was validated,
resolved and laid out shows its messages and its table, and the two agree unless
something had a meaning that was not written. Reading writes no such document.
-/
theorem consistent_ofDocuments
    {d q : ProtocolCorpus.Document} {r : Registry}
    (hvalid : d.validate.valid = true)
    (hlayOut : (d.validate.document.resolve r).document.layOut = .ok q)
    {docs : List ProtocolCorpus.Document} {n : Nat} (hn : docs[n]? = some q)
    (known : Option Registry) (hashes : List Text)
    (resolved : List ResolvedImports) (emitOrder : List Text) :
    (∀ limit f, (Document.read limit f).1 = some d → d.MeansWritten) ∧
      ∃ p out, q.protocol = some p ∧
        ((ofDocuments known docs hashes resolved emitOrder).documents.bind
          fun ds => ds[n]?) = some out ∧
        out.Tells p ∧ (d.MeansWritten → out.Consistent) := by
  refine ⟨fun limit f => Document.meansWritten_of_read, ?_⟩
  have hallowed : ∀ s ∈ d.validate.document.sites,
      s.argument.interface ≠ [] → s.argument.kind.allowsInterface = true :=
    Document.forall_mem_sites_validate
      (P := fun a => a.interface ≠ [] → a.kind.allowsInterface = true)
      (Document.allowed_of_valid hvalid)
  obtain ⟨p, hp⟩ := exists_protocol_of_valid hvalid r
  rw [Document.layOut_eq_map hp] at hlayOut
  obtain ⟨q', hq', rfl⟩ := Chain.map_eq_ok_iff.1 hlayOut
  refine ⟨q', ofDocument known
    { (d.validate.document.resolve r).document with protocol := some q' }
    hashes[n]? resolved[n]?, rfl, ?_, tells_of_interfaces rfl rfl rfl, ?_⟩
  · rw [ofDocuments, Option.bind_some, List.getElem?_map, List.getElem?_zipIdx,
      hn]
    simp
  · intro hmeant
    have hwritten : d.validate.document.MeansWritten :=
      Document.forall_mem_sites_validate
        (P := fun a => a.interface = [] → a.resolvedInterface = none) hmeant
    have hshown := Document.shown_of_resolve hallowed hwritten r
    rw [Document.sites, hp] at hshown
    have hvalues : ∀ m ∈ p.walk, ∀ a ∈ m.result.toList ++ m.args, a.Shown := by
      intro m hm a ha
      exact Protocol.forall_mem_sites_iff.1 hshown m hm a
        (m.wireArgs_perm.mem_iff.2 ha)
    exact consistent_of_sound (Protocol.sound_of_layOut hq')
      (Protocol.shown_of_layOut hq' hvalues) rfl rfl rfl

theorem factory_consistent :
    ∃ r p q out, Registry.build {} factoryCorpus = .ok r ∧
    factory.MeansWritten ∧
      factory.validate.valid = true ∧
      (factory.validate.document.resolve r).ok = true ∧
      (factory.validate.document.resolve r).document.layOut = .ok q ∧
      q.protocol = some p ∧
      ((ofDocuments (some r) [q] [] [] []).documents.bind fun ds => ds[0]?) =
        some out ∧
      out.Tells p ∧ out.Consistent := by
  have hbuild : (Registry.build {} factoryCorpus).map (fun r =>
      ((factory.validate.document.resolve r).ok,
        (factory.validate.document.resolve
        r).document.layOut.toOption.isSome)) =
      .ok (true, true) := by
    cbv
  obtain ⟨r, hr, hevaluated⟩ := Chain.map_eq_ok_iff.1 hbuild
  obtain ⟨hok, hsome⟩ := Prod.mk.inj hevaluated
  obtain ⟨q, hq⟩ := Option.isSome_iff_exists.1 hsome
  have hlayOut := Chain.toOption_eq_some_iff.1 hq
  have hmeant : factory.MeansWritten := by
    decide
  have hvalid : factory.validate.valid = true := by
    cbv
  have hfirst : [q][0]? = some q := rfl
  obtain ⟨-, p, out, hp, hout, htells, hconsistent⟩ :=
    consistent_ofDocuments hvalid hlayOut hfirst (some r) [] [] []
  exact ⟨r, p, q, out, hr, hmeant, hvalid, hok, hlayOut, hp, hout, htells,
    hconsistent hmeant⟩

/-- An argument that writes no reference and comes with a meaning. -/
def stray : ProtocolCorpus.Document := {
  path := "a.xml"
  importPath := "a"
  protocol := some {
    name := "p"
    interfaces := [{
      name := "p_i"
      version := 1
      requests := [{
        name := "r"
        since := 1
        args := [{
          name := "x"
          kind := .int
          resolvedInterface := some ⟨"wl", "surface", "wl_surface"⟩ }] }] }] } }

/-- The stray meaning is in print with the argument and not in the table. -/
theorem stray_inconsistent :
    ∃ r q out, Registry.build {} [stray] = .ok r ∧ stray.validate.valid = true ∧
      (stray.validate.document.resolve r).ok = true ∧
      (stray.validate.document.resolve r).document.layOut = .ok q ∧
      ((ofDocuments (some r) [q] [] [] []).documents.bind fun ds => ds[0]?) =
        some out ∧
      ¬out.Consistent := by
  have hbuild : (Registry.build {} [stray]).map (fun r =>
      ((stray.validate.document.resolve r).ok,
        (stray.validate.document.resolve r).document.layOut.toOption.bind
        fun q =>
          (((ofDocuments (some r) [q] [] [] []).documents.bind fun ds =>
          ds[0]?).map
            fun out => out.messages.map fun m =>
              (m.allNull, m.values.map fun a => a.interface.isSome)))) =
      .ok (true, some [(true, [true])]) := by
    cbv
  obtain ⟨r, hr, hevaluated⟩ := Chain.map_eq_ok_iff.1 hbuild
  obtain ⟨hok, hshown⟩ := Prod.mk.inj hevaluated
  obtain ⟨q, hq, hshown⟩ := Option.bind_eq_some_iff.1 hshown
  obtain ⟨out, hout, hmessages⟩ := Option.map_eq_some_iff.1 hshown
  have hvalid : stray.validate.valid = true := by
    cbv
  refine ⟨r, q, out, hr, hvalid, hok, Chain.toOption_eq_some_iff.1 hq, hout, ?_⟩
  intro hconsistent
  obtain ⟨m, hm, hpair⟩ :=
    List.mem_map.1 (hmessages ▸ List.mem_singleton_self (true, [true]))
  obtain ⟨hnull, hvalues⟩ := Prod.mk.inj hpair
  obtain ⟨a, ha, hsome⟩ :=
    List.mem_map.1 (hvalues ▸ List.mem_singleton_self true)
  rw [(hconsistent.untyped m hm hnull).1 a ha] at hsome
  cases hsome

end Interchange

end ProtocolCorpus
