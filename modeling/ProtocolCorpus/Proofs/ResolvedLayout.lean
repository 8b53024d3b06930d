import Mathlib
import ProtocolCorpus.Proofs.Sites
import ProtocolCorpus.Proofs.TypeTable
import ProtocolCorpus.Protocol.Normal

/-!
# The layout of resolved documents

Resolution visits the values of a message in the order of the wire, with the
result in its place, and looks up every reference that is written there. Layout
takes the result first and asks for a type only where the kind of a value can
have one. Both come across the same values, so that layout finds all types of a
document that has passed resolution; it can fail for want of room only. What has
been laid out is laid out in the same way again.
-/

namespace ProtocolCorpus

variable {p : Protocol} {d : Document}

/-- All types that layout asks for are known. -/
def Message.Settled (m : Message) : Prop :=
  ∀ a ∈ m.result.toList ++ m.args,
    a.kind.allowsInterface = true → a.interface ≠ [] → a.resolvedInterface ≠
    none

theorem Message.length_slotTypes (m : Message) :
    m.slotTypes.length = m.slotCount := by
  unfold slotTypes slotCount
  cases m.result with
  | none => simp
  | some a => simp

theorem Protocol.mapMessages_eq_self {f : Message → Message}
    (h : ∀ m ∈ p.walk, f m = m) :
    p.mapMessages f = p := by
  have hinterfaces : p.interfaces.map (Interface.mapMessages f) =
      p.interfaces.map id := by
    apply List.map_congr_left
    intro i hi
    apply Interface.mapMessages_eq_self
    intro m hm
    exact h m (List.mem_flatMap_of_mem hi hm)
  rw [mapMessages, hinterfaces, List.map_id]

/-- The number of values in all messages of a protocol. -/
def Protocol.slotTotal (p : Protocol) : Nat :=
  (p.walk.map Message.slotCount).sum

def Document.slotTotal (d : Document) : Nat :=
  (d.protocol.map Protocol.slotTotal).getD 0

namespace Layout

variable {i : Interface} {index : Nat} {ms : List Message} {e : LayoutError}
  {is : List Interface}

/-! ## Finding types -/

theorem slot_eq_ok
    {a : Argument}
    (ha : a.kind.allowsInterface = true → a.interface ≠ [] →
      a.resolvedInterface ≠ none)
    (p : Protocol) (i : Interface) (m : Message) :
    slot p i m a = .ok a.slotType := by
  unfold slot Argument.slotType
  cases hkind : a.kind.allowsInterface <;> cases hname : a.interface.isEmpty <;>
    cases hmeaning : a.resolvedInterface <;> simp_all

theorem collect_eq_ok
    {m : Message} (hm : m.Settled) (p : Protocol) (i : Interface) :
    collect p i m = .ok (withTypes m) := by
  have hslots : slots p i m = .ok m.slotTypes :=
    Chain.mapM_eq_ok_map fun a ha => slot_eq_ok (hm a ha) p i m
  rw [collect, Chain.bind_eq_ok_iff]
  refine ⟨m.slotTypes, hslots, ?_⟩
  rw [Chain.pure_eq_ok_iff, all_isNone_slotTypes, withTypes]

theorem collectInterface_eq_ok (hi : ∀ m ∈ i.messages, m.Settled)
    (p : Protocol) :
    collectInterface p i = .ok (i.mapMessages withTypes) := by
  have hrequests : i.requests.mapM (collect p i) =
    .ok (i.requests.map withTypes) :=
    Chain.mapM_eq_ok_map fun m hm =>
      collect_eq_ok (hi m (List.mem_append_left _ hm)) p i
  have hevents : i.events.mapM (collect p i) = .ok (i.events.map withTypes) :=
    Chain.mapM_eq_ok_map fun m hm =>
      collect_eq_ok (hi m (List.mem_append_right _ hm)) p i
  rw [collectInterface, hrequests, hevents]
  rfl

/-- The slots of all messages that have a type, one message after the other. -/
def typedSlots (ms : List Message) : List (Option Reference) :=
  (ms.filter fun m => !m.placement.allNull).flatMap fun m => m.placement.slots

def tabulate (p : Protocol) (ms : List Message) (placed : List Interface) :
    Protocol :=
  { p with
    interfaces := placed
    nullRun := nullRun ms
    typeTable := List.replicate (nullRun ms) none ++ typedSlots ms }

/-- Once all types are known, layout is a matter of finding room. -/
theorem layOut_eq_map (hp : ∀ m ∈ p.walk, m.Settled) :
    p.layOut =
      (placeInterfaces p (nullRun (p.mapMessages withTypes).walk)
        (p.mapMessages withTypes).interfaces).map
        (tabulate p (p.mapMessages withTypes).walk) := by
  have hcollected : p.interfaces.mapM (collectInterface p) =
    .ok (p.mapMessages withTypes).interfaces :=
    Chain.mapM_eq_ok_map fun i hi =>
      collectInterface_eq_ok (fun m hm => hp m (List.mem_flatMap_of_mem hi hm))
        p
  rw [Protocol.layOut, hcollected]
  rfl

/-! ## Finding room -/

theorem fault_eq_of_place_eq_error (h : place p i index ms = .error e) :
    e.fault = .indexOverflow := by
  induction ms generalizing index with
  | nil => cases h
  | cons m ms ih =>
    rw [place] at h
    split at h
    next =>
      rcases Chain.bind_eq_error_iff.1 h with hrest | ⟨_, _, hdone⟩
      · exact ih hrest
      · cases hdone
    next =>
      dsimp only at h
      split at h
      next =>
        cases h
        rfl
      next =>
        rcases Chain.bind_eq_error_iff.1 h with hrest | ⟨_, _, hdone⟩
        · exact ih hrest
        · cases hdone

theorem fault_eq_of_placeInterfaces_eq_error
    (h : placeInterfaces p index is = .error e) :
    e.fault = .indexOverflow := by
  induction is generalizing index with
  | nil => cases h
  | cons i is ih =>
    rw [placeInterfaces] at h
    rcases Chain.bind_eq_error_iff.1 h with hrequests | ⟨_, _, h⟩
    · exact fault_eq_of_place_eq_error hrequests
    rcases Chain.bind_eq_error_iff.1 h with hevents | ⟨_, _, h⟩
    · exact fault_eq_of_place_eq_error hevents
    rcases Chain.bind_eq_error_iff.1 h with hrest | ⟨_, _, hdone⟩
    · exact ih hrest
    · cases hdone

theorem typedSlots_append (ms ns : List Message) :
    typedSlots (ms ++ ns) = typedSlots ms ++ typedSlots ns := by
  rw [typedSlots, List.filter_append, List.flatMap_append]
  rfl

/-- Messages find room if there is room for all their slots. -/
theorem exists_place_eq_ok (p : Protocol) (i : Interface)
    (hroom : index + (typedSlots ms).length ≤ maxIndex) :
    ∃ placed, place p i index ms =
      .ok (placed, index + (typedSlots ms).length) := by
  induction ms generalizing index with
  | nil => exact ⟨[], rfl⟩
  | cons m ms ih =>
    rw [place]
    cases hm : m.placement.allNull with
    | true =>
      have hslots : typedSlots (m :: ms) = typedSlots ms := by
        simp [typedSlots, hm]
      rw [hslots] at hroom ⊢
      obtain ⟨placed, hplaced⟩ := ih hroom
      rw [if_pos rfl, hplaced]
      exact ⟨_, rfl⟩
    | false =>
      have hslots : (typedSlots (m :: ms)).length =
          m.placement.slots.length + (typedSlots ms).length := by
        simp [typedSlots, hm]
      rw [hslots, ← Nat.add_assoc] at hroom ⊢
      obtain ⟨placed, hplaced⟩ := ih hroom
      have hfits : ¬maxIndex < index + m.placement.slots.length := by
        omega
      rw [if_neg Bool.false_ne_true]
      dsimp only
      rw [if_neg hfits, hplaced]
      exact ⟨_, rfl⟩

theorem exists_placeInterfaces_eq_ok (p : Protocol)
    (hroom : index + (typedSlots (is.flatMap Interface.messages)).length ≤
      maxIndex) :
    ∃ placed, placeInterfaces p index is = .ok placed := by
  induction is generalizing index with
  | nil => exact ⟨[], rfl⟩
  | cons i is ih =>
    rw [List.flatMap_cons, Interface.messages, typedSlots_append,
      typedSlots_append, List.length_append, List.length_append] at hroom
    have hroomRequests : index + (typedSlots i.requests).length ≤ maxIndex := by
      omega
    obtain ⟨requests, hrequests⟩ := exists_place_eq_ok p i hroomRequests
    have hroomEvents :
        index + (typedSlots i.requests).length + (typedSlots i.events).length ≤
        maxIndex := by
      omega
    obtain ⟨events, hevents⟩ := exists_place_eq_ok p i hroomEvents
    have hroomRest : index + (typedSlots i.requests).length +
        (typedSlots i.events).length +
        (typedSlots (is.flatMap Interface.messages)).length ≤ maxIndex := by
      omega
    obtain ⟨rest, hrest⟩ := ih hroomRest
    refine ⟨{ i with requests, events } :: rest, ?_⟩
    simp only [placeInterfaces, Chain.bind_eq_ok_iff, Chain.pure_eq_ok_iff]
    exact ⟨_, hrequests, _, hevents, _, hrest, rfl⟩

/-- The run and the slots behind it are no more than all slots. -/
theorem nullRun_add_length_le (ms : List Message) :
    nullRun ms + (typedSlots ms).length ≤
    (ms.map fun m => m.placement.slots.length).sum := by
  suffices h : ∀ n, (ms.filter fun m => m.placement.allNull).foldl
      (fun n m => max n m.placement.slots.length) n + (typedSlots ms).length ≤
      n + (ms.map fun m => m.placement.slots.length).sum by
    simpa [nullRun] using h 0
  intro n
  induction ms generalizing n with
  | nil => exact Nat.le_refl n
  | cons m ms ih =>
    cases hm : m.placement.allNull with
    | true =>
      have hstep := ih (max n m.placement.slots.length)
      simp [typedSlots, hm] at hstep ⊢
      omega
    | false =>
      have hstep := ih n
      simp [typedSlots, hm] at hstep ⊢
      omega

theorem fault_eq_of_layOut_eq_error (hp : ∀ m ∈ p.walk, m.Settled)
    (h : p.layOut = .error e) :
    e.fault = .indexOverflow := by
  rw [layOut_eq_map hp] at h
  cases hplacing : placeInterfaces p (nullRun (p.mapMessages withTypes).walk)
      (p.mapMessages withTypes).interfaces with
  | error e' =>
    rw [hplacing] at h
    cases h
    exact fault_eq_of_placeInterfaces_eq_error hplacing
  | ok placed =>
    rw [hplacing] at h
    cases h

theorem exists_layOut_eq_ok (hp : ∀ m ∈ p.walk, m.Settled)
    (htotal : p.slotTotal < 2 ^ 32) :
    ∃ q, p.layOut = .ok q := by
  have hsum :
      ((p.mapMessages withTypes).walk.map fun m =>
      m.placement.slots.length).sum = p.slotTotal := by
    rw [p.walk_mapMessages withTypes, List.map_map, Protocol.slotTotal]
    congr 1
    apply List.map_congr_left
    intro m _
    exact m.length_slotTypes
  have hroom : nullRun (p.mapMessages withTypes).walk +
      (typedSlots (p.mapMessages withTypes).walk).length ≤ maxIndex := by
    have hle := nullRun_add_length_le (p.mapMessages withTypes).walk
    rw [hsum] at hle
    rw [maxIndex]
    omega
  obtain ⟨placed, hplaced⟩ := exists_placeInterfaces_eq_ok p hroom
  rw [layOut_eq_map hp, hplaced]
  exact ⟨_, rfl⟩

/-! ## Laying out again -/

theorem place_placed_eq {start stop : Nat} {placed : List Message}
    (h : place p i start ms = .ok (placed, stop)) (q : Protocol)
    (j : Interface) :
    place q j start placed = .ok (placed, stop) := by
  induction ms generalizing start placed with
  | nil =>
    simp only [place, Except.ok.injEq, Prod.mk.injEq] at h
    obtain ⟨rfl, rfl⟩ := h
    rfl
  | cons m ms ih =>
    rcases place_cons_cases h
      with ⟨hm, rest, hrest, rfl⟩ | ⟨hm, hroom, rest, hrest, rfl⟩
    · have hnull : (unindexed m).placement.allNull = true := hm
      rw [place, if_pos hnull, ih hrest]
      rfl
    · have hfits : ¬maxIndex < start + m.placement.slots.length :=
        Nat.not_lt.2 hroom
      rw [place, if_neg (Bool.eq_false_iff.1 hm)]
      dsimp only
      rw [if_neg hfits, ih hrest]
      rfl

theorem placeInterfaces_placed_eq {start : Nat} {placed : List Interface}
    (h : placeInterfaces p start is = .ok placed) (q : Protocol) :
    placeInterfaces q start placed = .ok placed := by
  induction is generalizing start placed with
  | nil =>
    cases h
    rfl
  | cons i is ih =>
    simp only [placeInterfaces, Chain.bind_eq_ok_iff, Chain.pure_eq_ok_iff] at h
    obtain ⟨⟨requests, afterRequests⟩, hrequests, ⟨events, afterEvents⟩,
      hevents, rest, hrest, rfl⟩ := h
    simp only [placeInterfaces, Chain.bind_eq_ok_iff, Chain.pure_eq_ok_iff]
    exact ⟨_, place_placed_eq hrequests q _, _, place_placed_eq hevents q _, _,
      ih hrest, rfl⟩

theorem withTypes_eq_self
    {m : Message} (hm : Typed m) :
    withTypes m = m := by
  obtain ⟨hslots, hnull⟩ := hm
  rw [withTypes, ← hslots, ← hnull]

theorem nullRun_eq_of_map_unindexed_eq {ns : List Message}
    (h : ns.map unindexed = ms.map unindexed) :
    nullRun ns = nullRun ms := by
  rw [nullRun_eq_max?, nullRun_eq_max?,
    map_filter_eq_of_map_unindexed_eq (fun _ => rfl) (fun _ => rfl) h]

theorem typedSlots_eq_of_map_unindexed_eq {ns : List Message}
    (h : ns.map unindexed = ms.map unindexed) :
    typedSlots ns = typedSlots ms := by
  rw [typedSlots, typedSlots, List.flatMap_def, List.flatMap_def,
    map_filter_eq_of_map_unindexed_eq (fun _ => rfl) (fun _ => rfl) h]

/-- A protocol that has been laid out is laid out in the same way again. -/
theorem layOut_eq_self {q : Protocol} (hp : ∀ m ∈ p.walk, m.Settled)
    (h : p.layOut = .ok q) :
    q.layOut = .ok q := by
  rw [layOut_eq_map hp] at h
  obtain ⟨placed, hplacing, hq⟩ := Chain.map_eq_ok_iff.1 h
  obtain ⟨⟨stop, hplaced⟩, -⟩ := placeInterfaces_placed hplacing
  have hinterfaces : q.interfaces = placed := by
    rw [← hq, tabulate]
  have hsame : q.walk.map unindexed =
      (p.mapMessages withTypes).walk.map unindexed := by
    rw [Protocol.walk, hinterfaces]
    exact hplaced.unindexed_eq
  have hmessage : ∀ m ∈ q.walk, Typed m ∧ m.Settled := by
    refine forall_of_map_unindexed_eq (fun _ => Iff.rfl) hsame ?_
    intro m hm
    rw [p.walk_mapMessages withTypes] at hm
    obtain ⟨n, hn, rfl⟩ := List.mem_map.1 hm
    exact ⟨typed_withTypes n, hp n hn⟩
  -- The first walk finds nothing new, and the second leaves all messages where
  -- they are.
  have hfound : q.mapMessages withTypes = q :=
    Protocol.mapMessages_eq_self fun m hm => withTypes_eq_self (hmessage m hm).1
  have hrun : nullRun q.walk = nullRun (p.mapMessages withTypes).walk :=
    nullRun_eq_of_map_unindexed_eq hsame
  have hagain : placeInterfaces q (nullRun q.walk) q.interfaces =
      .ok placed := by
    rw [hrun, hinterfaces]
    exact placeInterfaces_placed_eq hplacing q
  have htable : tabulate q q.walk placed = q := by
    rw [tabulate, hrun, typedSlots_eq_of_map_unindexed_eq hsame, ← hq]
    rfl
  rw [layOut_eq_map fun m hm => (hmessage m hm).2, hfound, hagain]
  exact congrArg Except.ok htable

end Layout

/-! ## Resolved documents -/

/-- What layout makes of a document whose types are all known. -/
structure LaysOut (d : Document) : Prop where
  /-- Only room can be wanting. -/
  fault_eq : ∀ e, d.layOut = .error e → e.fault = .indexOverflow
  /-- There is room if 32 bits can count the values of all messages. -/
  exists_eq_ok : d.slotTotal < 2 ^ 32 → ∃ q, d.layOut = .ok q
  /-- What has been laid out stays as it is. -/
  eq_self : ∀ q, d.layOut = .ok q → q.layOut = .ok q

theorem Document.layOut_eq_map (hp : d.protocol = some p) :
    d.layOut = p.layOut.map fun q => { d with protocol := some q } := by
  rw [layOut, hp]

theorem laysOut_of_settled (hd : ∀ p, d.protocol = some p →
    ∀ m ∈ p.walk, m.Settled) :
    LaysOut d := by
  cases hprotocol : d.protocol with
  | none =>
    have hlayOut : d.layOut = .ok d := by
      rw [Document.layOut, hprotocol]
    constructor
    case fault_eq =>
      intro e he
      cases hlayOut.symm.trans he
    case exists_eq_ok => exact fun _ => ⟨d, hlayOut⟩
    case eq_self =>
      intro q hq
      cases hlayOut.symm.trans hq
      exact hlayOut
  | some p =>
    have hsettled := hd p hprotocol
    have hlayOut := Document.layOut_eq_map hprotocol
    constructor
    case fault_eq =>
      intro e he
      cases hp : p.layOut with
      | error e' =>
        rw [hlayOut, hp] at he
        cases he
        exact Layout.fault_eq_of_layOut_eq_error hsettled hp
      | ok q =>
        rw [hlayOut, hp] at he
        cases he
    case exists_eq_ok =>
      intro htotal
      rw [Document.slotTotal, hprotocol] at htotal
      obtain ⟨q, hq⟩ := Layout.exists_layOut_eq_ok hsettled htotal
      rw [hlayOut, hq]
      exact ⟨_, rfl⟩
    case eq_self =>
      intro e he
      rw [hlayOut, Chain.map_eq_ok_iff] at he
      obtain ⟨q, hq, rfl⟩ := he
      rw [Document.layOut_eq_map (p := q) rfl,
        Layout.layOut_eq_self hsettled hq]
      rfl

theorem Protocol.exists_site {m : Message} {a : Argument} (hm : m ∈ p.walk)
    (ha : a ∈ m.result.toList ++ m.args) :
    ∃ s ∈ p.sites, s.argument = a := by
  obtain ⟨i, hi, hmi⟩ := List.mem_flatMap.1 hm
  have hmessage : (i, m) ∈ p.messages :=
    List.mem_flatMap_of_mem hi (List.mem_map_of_mem hmi)
  have hwire : a ∈ m.wireArgs := m.wireArgs_perm.mem_iff.2 ha
  exact ⟨⟨i, m, a⟩, List.mem_flatMap_of_mem hmessage
    (List.mem_map_of_mem hwire), rfl⟩

/-- Layout asks only for types that resolution has looked up. -/
theorem Document.settled_of_resolve_ok {r : Registry}
    (hok : (d.resolve r).ok = true)
    (hp : (d.resolve r).document.protocol = some p) :
    ∀ m ∈ p.walk, m.Settled := by
  intro m hm a ha _ hne
  obtain ⟨s', hs', rfl⟩ := Protocol.exists_site hm ha
  have hsites : (Resolution.document r d).sites = p.sites := by
    rw [Document.sites, show (Resolution.document r d).protocol =
      some p from hp]
    rfl
  rw [← hsites, Resolution.sites_document] at hs'
  obtain ⟨s, hs, rfl⟩ := List.mem_map.1 hs'
  obtain ⟨t, ht⟩ :=
    Resolution.exists_interface_of_foldl
      (Resolution.not_failed_of_resolve_ok hok) hs hne
  have hwritten : s.argument.interface.isEmpty = false :=
    List.isEmpty_eq_false_iff.2 hne
  simp [Resolution.resolvedSite, Resolution.argument, ht, hwritten]

/-- A document that has passed resolution lays out, whether its results have
been set apart or not. -/
theorem laysOut_of_resolve_ok
    {r : Registry} {d : Document} (hok : (d.resolve r).ok = true) :
    LaysOut (d.resolve r).document := by
  apply laysOut_of_settled
  intro p hp
  exact Document.settled_of_resolve_ok hok hp

/-- A document that creates an object with a result between two arguments. -/
def factory : Document :=
  Document.normalize {
    path := "a.xml"
    importPath := "p/a"
    protocol := some {
      name := "factory"
      interfaces := [
        { name := "fx_pool"
          requests := [{
            name := "create"
            args := [
              { name := "width", kind := .int },
              { name := "id", kind := .newId, interface := "fx_buffer" },
              { name := "surface", kind := .object,
                interface := "wl_surface" }] }]
          events := [{
            name := "size"
            args := [{ name := "width", kind := .int },
              { name := "height", kind := .int }] }] },
        { name := "fx_buffer" }] } }

def factoryCorpus : List Document :=
  [factory,
    { path := "b.xml", importPath := "p/b",
      protocol :=
        some { name := "wayland", interfaces := [{ name := "wl_surface" }] } }]

/-- The table starts with a run of two slots, and the result comes before the
arguments. -/
theorem factory_laysOut :
    ∃ r q, Registry.build {} factoryCorpus = .ok r ∧ (factory.resolve r).ok =
    true ∧
      (factory.resolve r).document.slotTotal = 5 ∧
      (factory.resolve r).document.layOut = .ok q ∧
      q.protocol.map (fun p => p.typeTable.map describeSlot) =
        some (["<null>", "<null>", "buffer", "<null>", "wl.surface"].map
        Text.ofString) ∧
      LaysOut (factory.resolve r).document := by
  have hbuild : (Registry.build {} factoryCorpus).map (fun r =>
      ((factory.resolve r).ok, (factory.resolve r).document.slotTotal,
        (factory.resolve r).document.layOut.toOption.map fun q =>
          q.protocol.map fun p => p.typeTable.map describeSlot)) =
      .ok (true, 5,
        some (some (["<null>", "<null>", "buffer", "<null>", "wl.surface"].map
          Text.ofString))) := by
    cbv
  obtain ⟨r, hr, hevaluated⟩ := Chain.map_eq_ok_iff.1 hbuild
  obtain ⟨hok, hrest⟩ := Prod.mk.inj hevaluated
  obtain ⟨htotal, hlaidOut⟩ := Prod.mk.inj hrest
  obtain ⟨q, hq, htable⟩ := Option.map_eq_some_iff.1 hlaidOut
  exact ⟨r, q, hr, hok, htotal, Chain.toOption_eq_some_iff.1 hq, htable,
    laysOut_of_resolve_ok hok⟩

end ProtocolCorpus
