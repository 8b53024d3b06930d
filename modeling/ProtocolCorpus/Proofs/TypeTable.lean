import ProtocolCorpus.Layout
import ProtocolCorpus.Proofs.Chain

/-!
# The type table of a laid out protocol

Layout walks the messages of a protocol twice. The first walk finds the types of
every message and the length of the run of empty slots that the messages without
types share; the second gives every other message the next free index. This
module says what both walks leave behind: the messages with types tile the table
from the end of the run to the end of the table, and every message finds its
types where its index points.
-/

namespace ProtocolCorpus

/-- The type of an argument: what its reference means, if its kind can refer to
an interface. -/
def Argument.slotType (a : Argument) : Option Reference :=
  if a.kind.allowsInterface && !a.interface.isEmpty then a.resolvedInterface
  else none

namespace Message

/-- The types of a message: of its result, if it has one, and then of each
argument. -/
def slotTypes (m : Message) : List (Option Reference) :=
  (m.result.toList ++ m.args).map Argument.slotType

def Untyped (m : Message) : Prop :=
  ∀ t ∈ m.slotTypes, t = none

instance : DecidablePred Untyped := fun m =>
    inferInstanceAs (Decidable (∀ t ∈ m.slotTypes, t = none))

/-- The index behind the last slot of a placed message. -/
def slotStop (m : Message) : Nat :=
  m.placement.typeIndex + m.placement.slots.length

/-- The message without what layout says of it. -/
def unplaced (m : Message) : Message :=
  { m with placement := {} }

end Message

namespace Protocol

/-- The messages of a protocol, interface by interface, requests before events.
-/
def walk (p : Protocol) : List Message :=
  p.interfaces.flatMap Interface.messages

/-- The messages that have a type, in the same order. -/
def typedWalk (p : Protocol) : List Message :=
  p.walk.filter fun m => ¬m.Untyped

def unplaced (p : Protocol) : Protocol :=
  { p.mapMessages Message.unplaced with nullRun := 0, typeTable := [] }

end Protocol

theorem Interface.messages_mapMessages (f : Message → Message) (i : Interface) :
    (i.mapMessages f).messages = i.messages.map f :=
  List.map_append.symm

theorem Interface.mapMessages_eq_self
    {f : Message → Message} {i : Interface} (h : ∀ m ∈ i.messages, f m = m) :
    i.mapMessages f = i := by
  have hrequests : i.requests.map f = i.requests.map id :=
    List.map_congr_left fun m hm => h m (List.mem_append_left _ hm)
  have hevents : i.events.map f = i.events.map id :=
    List.map_congr_left fun m hm => h m (List.mem_append_right _ hm)
  rw [mapMessages, hrequests, hevents, List.map_id, List.map_id]

theorem Protocol.walk_mapMessages (f : Message → Message) (p : Protocol) :
    (p.mapMessages f).walk = p.walk.map f := by
  simp only [walk, mapMessages, List.flatMap_map, List.map_flatMap,
    Interface.messages_mapMessages]

namespace Layout

variable {p : Protocol} {i : Interface} {m : Message} {start stop : Nat}
  {ms ns : List Message}

/-- The slots of the messages follow each other without a gap from `start` to
`stop`. -/
def Tiles : (start : Nat) → List Message → (stop : Nat) → Prop
  | start, [], stop => start = stop
  | start, m :: ms, stop =>
  m.placement.typeIndex = start ∧ Tiles m.slotStop ms stop

structure Sound (q : Protocol) : Prop where
  slots_eq : ∀ m ∈ q.walk, m.placement.slots = m.slotTypes
  /-- The run is as long as the longest message without types. -/
  nullRun_eq : q.nullRun =
    (((q.walk.filter fun m => m.Untyped).map fun m =>
    m.slotTypes.length).max?).getD 0
  take_nullRun : q.typeTable.take q.nullRun = List.replicate q.nullRun none
  /-- A message without types lies in the run. -/
  untyped : ∀ m ∈ q.walk, m.Untyped →
    m.placement.allNull = true ∧ m.placement.typeIndex = 0 ∧
    m.slotTypes.length ≤ q.nullRun
  /-- Any other message finds its types in the table. -/
  typed : ∀ m ∈ q.walk, ¬m.Untyped →
    m.placement.allNull = false ∧
      (q.typeTable.drop m.placement.typeIndex).take m.slotTypes.length =
      m.slotTypes
  /-- The ranges of those messages are consecutive and cover the table behind
  the run. -/
  tiles : Tiles q.nullRun q.typedWalk q.typeTable.length
  disjoint : q.typedWalk.Pairwise fun m n => m.slotStop ≤ n.placement.typeIndex
  /-- Every range ends where 32 bits can tell. -/
  bounded : ∀ m ∈ q.typedWalk, m.slotStop ≤ 0xFFFFFFFF

/-! ## The first walk -/

def withTypes (m : Message) : Message :=
  { m with
    placement := { m.placement with
        slots := m.slotTypes, allNull := decide m.Untyped } }

theorem slot_eq_slotType {a : Argument} {t : Option Reference}
    (h : slot p i m a = .ok t) :
    t = a.slotType := by
  unfold slot at h
  unfold Argument.slotType
  cases hkind : a.kind.allowsInterface <;> cases hname : a.interface.isEmpty <;>
    cases hmeaning : a.resolvedInterface <;> simp_all

theorem slots_eq_slotTypes {ts : List (Option Reference)}
    (h : slots p i m = .ok ts) :
    ts = m.slotTypes :=
  Chain.eq_map_of_mapM_eq_ok (fun _ _ => slot_eq_slotType) h

theorem all_isNone_slotTypes (m : Message) :
    m.slotTypes.all Option.isNone = decide m.Untyped := by
  rw [Bool.eq_iff_iff, decide_eq_true_iff, List.all_eq_true]
  simp only [Message.Untyped, Option.isNone_iff_eq_none]

theorem collect_eq_withTypes {m' : Message} (h : collect p i m = .ok m') :
    m' = withTypes m := by
  simp only [collect, Chain.bind_eq_ok_iff, Chain.pure_eq_ok_iff] at h
  obtain ⟨ts, hts, rfl⟩ := h
  rw [slots_eq_slotTypes hts, all_isNone_slotTypes, withTypes]

theorem collectInterface_eq_mapMessages {i' : Interface}
    (h : collectInterface p i = .ok i') :
    i' = i.mapMessages withTypes := by
  simp only [collectInterface, Chain.bind_eq_ok_iff, Chain.pure_eq_ok_iff] at h
  obtain ⟨requests, hrequests, events, hevents, rfl⟩ := h
  rw [Chain.eq_map_of_mapM_eq_ok (fun _ _ => collect_eq_withTypes) hrequests,
    Chain.eq_map_of_mapM_eq_ok (fun _ _ => collect_eq_withTypes) hevents,
    Interface.mapMessages]

/-! ## The second walk -/

def unindexed (m : Message) : Message :=
  { m with placement := { m.placement with typeIndex := 0 } }

/-- `placed` are the messages `ms` with indices from `start` on, and `stop` is
the index behind them. -/
structure Placed (start : Nat) (ms placed : List Message)
    (stop : Nat) : Prop where
  unindexed_eq : placed.map unindexed = ms.map unindexed
  null : ∀ m ∈ placed, m.placement.allNull → m.placement.typeIndex = 0
  tiles : Tiles start (placed.filter fun m => !m.placement.allNull) stop
  bounded : ∀ m ∈ placed, !m.placement.allNull → m.slotStop ≤ maxIndex

theorem Tiles.append {middle : Nat} (hms : Tiles start ms middle)
    (hns : Tiles middle ns stop) :
    Tiles start (ms ++ ns) stop := by
  induction ms generalizing start with
  | nil =>
    have hstart : start = middle := hms
    rw [hstart]
    exact hns
  | cons m ms ih => exact ⟨hms.1, ih hms.2⟩

theorem Placed.nil (start : Nat) :
    Placed start [] [] start :=
  ⟨rfl, by simp, rfl, by simp⟩

theorem Placed.append {middle : Nat} {ms' ns' : List Message}
    (hms : Placed start ms ms' middle) (hns : Placed middle ns ns' stop) :
    Placed start (ms ++ ns) (ms' ++ ns') stop where
  unindexed_eq := by
    rw [List.map_append, List.map_append, hms.unindexed_eq, hns.unindexed_eq]
  null m hm := (List.mem_append.1 hm).elim (hms.null m) (hns.null m)
  tiles := by
    rw [List.filter_append]
    exact hms.tiles.append hns.tiles
  bounded m hm := (List.mem_append.1 hm).elim (hms.bounded m) (hns.bounded m)

/-- A message without types takes no room. -/
theorem Placed.null_singleton (hm : m.placement.allNull = true) (start : Nat) :
    Placed start [m] [unindexed m] start := by
  constructor
  · rfl
  · simp [unindexed]
  · simp [unindexed, hm, Tiles]
  · simp [unindexed, hm]

/-- Any other message takes the room of its slots. -/
theorem Placed.typed_singleton (hm : m.placement.allNull = false)
    (hroom : start + m.placement.slots.length ≤ maxIndex) :
    Placed start [m] [{ m with
        placement := { m.placement with typeIndex := start } }]
      (start + m.placement.slots.length) := by
  constructor
  · rfl
  · simp [hm]
  · simp [hm, Tiles, Message.slotStop]
  · simpa [hm, Message.slotStop] using hroom

/-- What placing one more message can do. -/
theorem place_cons_cases {placed : List Message}
    (h : place p i start (m :: ms) = .ok (placed, stop)) :
    (m.placement.allNull = true ∧
        ∃ rest, place p i start ms = .ok (rest, stop) ∧
        placed = unindexed m :: rest) ∨
      m.placement.allNull = false ∧ start + m.placement.slots.length ≤
        maxIndex ∧
        ∃ rest, place p i (start + m.placement.slots.length) ms =
        .ok (rest, stop) ∧
          placed = { m with
              placement := { m.placement with typeIndex := start } } ::
                rest := by
  rw [place] at h
  split at h
  next hm =>
    simp only [Chain.bind_eq_ok_iff, Chain.pure_eq_ok_iff] at h
    obtain ⟨⟨rest, stop'⟩, hrest, heq⟩ := h
    obtain ⟨rfl, rfl⟩ := Prod.mk.inj heq
    exact .inl ⟨hm, rest, hrest, rfl⟩
  next hm =>
    dsimp only at h
    split at h
    next => cases h
    next hroom =>
      simp only [Chain.bind_eq_ok_iff, Chain.pure_eq_ok_iff] at h
      obtain ⟨⟨rest, stop'⟩, hrest, heq⟩ := h
      obtain ⟨rfl, rfl⟩ := Prod.mk.inj heq
      exact .inr
        ⟨Bool.eq_false_iff.2 hm, Nat.le_of_not_lt hroom, rest, hrest, rfl⟩

theorem place_placed {placed : List Message}
    (h : place p i start ms = .ok (placed, stop)) :
    Placed start ms placed stop := by
  induction ms generalizing start placed with
  | nil =>
    simp only [place, Except.ok.injEq, Prod.mk.injEq] at h
    obtain ⟨rfl, rfl⟩ := h
    exact Placed.nil start
  | cons m ms ih =>
    rcases place_cons_cases h
      with ⟨hm, rest, hrest, rfl⟩ | ⟨hm, hroom, rest, hrest, rfl⟩
    · exact (Placed.null_singleton hm start).append (ih hrest)
    · exact (Placed.typed_singleton hm hroom).append (ih hrest)

theorem placeInterfaces_placed {is placed : List Interface}
    (h : placeInterfaces p start is = .ok placed) :
    (∃ stop, Placed start (is.flatMap Interface.messages)
      (placed.flatMap Interface.messages) stop) ∧
      placed.map (Interface.mapMessages unindexed) =
      is.map (Interface.mapMessages unindexed) := by
  induction is generalizing start placed with
  | nil =>
    cases h
    exact ⟨⟨start, Placed.nil start⟩, rfl⟩
  | cons i is ih =>
    simp only [placeInterfaces, Chain.bind_eq_ok_iff, Chain.pure_eq_ok_iff] at h
    obtain ⟨⟨requests, afterRequests⟩, hrequests, ⟨events, afterEvents⟩,
      hevents, rest, hrest, rfl⟩ := h
    have hr := place_placed hrequests
    have he := place_placed hevents
    obtain ⟨⟨stop, hplaced⟩, hsame⟩ := ih hrest
    refine ⟨⟨stop, ?_⟩, ?_⟩
    · simpa [Interface.messages] using (hr.append he).append hplaced
    · simp [Interface.mapMessages, hr.unindexed_eq, he.unindexed_eq, hsame]

/-! ## What the walks leave behind -/

/-- Messages that tile a part of the table and are written there in order are
found by their indices. -/
theorem Tiles.take_drop_eq {front : List (Option Reference)}
    (h : Tiles start ms stop) (hfront : front.length = start) (hm : m ∈ ms) :
    ((front ++ ms.flatMap fun m => m.placement.slots).drop
      m.placement.typeIndex).take
      m.placement.slots.length = m.placement.slots := by
  induction ms generalizing start front with
  | nil => cases hm
  | cons n ms ih =>
    obtain ⟨hindex, hrest⟩ := h
    rcases List.mem_cons.1 hm with rfl | hm
    · rw [hindex, ← hfront, List.drop_left, List.flatMap_cons, List.take_left]
    · have hlength : (front ++ n.placement.slots).length = n.slotStop := by
        rw [List.length_append, hfront, Message.slotStop, hindex]
      simpa using ih hrest hlength hm

theorem Tiles.stop_eq (h : Tiles start ms stop) :
    stop = start + (ms.flatMap fun m => m.placement.slots).length := by
  induction ms generalizing start with
  | nil => exact h.symm
  | cons m ms ih =>
    rw [ih h.2, Message.slotStop, h.1, List.flatMap_cons, List.length_append,
      Nat.add_assoc]

theorem Tiles.start_le (h : Tiles start ms stop) (hm : m ∈ ms) :
    start ≤ m.placement.typeIndex := by
  induction ms generalizing start with
  | nil => cases hm
  | cons n ms ih =>
    rcases List.mem_cons.1 hm with rfl | hm
    · exact Nat.le_of_eq h.1.symm
    · have hstart : start ≤ n.slotStop := by
        rw [Message.slotStop, h.1]
        exact Nat.le_add_right _ _
      exact Nat.le_trans hstart (ih h.2 hm)

theorem Tiles.pairwise (h : Tiles start ms stop) :
    ms.Pairwise fun m n => m.slotStop ≤ n.placement.typeIndex := by
  induction ms generalizing start with
  | nil => exact List.Pairwise.nil
  | cons m ms ih =>
    exact List.Pairwise.cons (fun _ hn => h.2.start_le hn) (ih h.2)

/-- The message carries its types and knows whether there are any. -/
def Typed (m : Message) : Prop :=
  m.placement.slots = m.slotTypes ∧ m.placement.allNull = decide m.Untyped

theorem typed_withTypes (m : Message) : Typed (withTypes m) :=
  ⟨rfl, rfl⟩

/-- A property that does not look at indices is shared by messages that differ
in their indices only. -/
theorem forall_of_map_unindexed_eq {P : Message → Prop}
    (hP : ∀ m, P (unindexed m) ↔ P m)
    (h : ns.map unindexed = ms.map unindexed) (hms : ∀ m ∈ ms, P m) :
    ∀ n ∈ ns, P n := by
  intro n hn
  have hmem : unindexed n ∈ ms.map unindexed := h ▸ List.mem_map_of_mem hn
  obtain ⟨m, hm, heq⟩ := List.mem_map.1 hmem
  have hshared : P (unindexed m) := (hP m).2 (hms m hm)
  rw [heq] at hshared
  exact (hP n).1 hshared

/-- What does not look at indices is the same for messages that differ in their
indices only. -/
theorem map_filter_eq_of_map_unindexed_eq {α : Type} {f : Message → α}
    {keep : Message → Bool}
    (hf : ∀ m, f (unindexed m) = f m) (hkeep : ∀ m, keep (unindexed m) = keep m)
    (h : ns.map unindexed = ms.map unindexed) :
    (ns.filter keep).map f = (ms.filter keep).map f := by
  have through (l : List Message) : (l.filter keep).map f =
      ((l.map unindexed).filter keep).map f := by
    rw [List.filter_map, List.map_map]
    congr 1
    · exact (funext hf).symm
    · congr 1
      exact (funext hkeep).symm
  rw [through ns, h, ← through ms]

theorem nullRun_eq_max? (ms : List Message) :
    nullRun ms =
      (((ms.filter fun m => m.placement.allNull).map fun m =>
      m.placement.slots.length).max?).getD 0 := by
  rw [nullRun,
    ← List.foldl_map (f := fun m : Message => m.placement.slots.length)
    (g := max), List.foldl_max, Nat.zero_max]

/-- A table made of the run and the slots of the placed messages is sound. -/
theorem sound_of_placed {q : Protocol} (hms : ∀ m ∈ ms, Typed m)
    (hplaced : Placed (nullRun ms) ms q.walk stop)
    (hrun : q.nullRun = nullRun ms)
    (htable : q.typeTable = List.replicate (nullRun ms) none ++
      (ms.filter fun m => !m.placement.allNull).flatMap fun m =>
      m.placement.slots) :
    Sound q := by
  have htyped : ∀ m ∈ q.walk, Typed m :=
    forall_of_map_unindexed_eq (fun _ => Iff.rfl) hplaced.unindexed_eq hms
  have huntyped :
      (q.walk.filter fun m => m.placement.allNull) = q.walk.filter fun m =>
      m.Untyped :=
    List.filter_congr fun m hm => (htyped m hm).2
  have htypedWalk : (q.walk.filter fun m => !m.placement.allNull) =
    q.typedWalk :=
    List.filter_congr fun m hm => by rw [(htyped m hm).2, decide_not]
  have hrunMax : q.nullRun =
      (((q.walk.filter fun m => m.Untyped).map fun m =>
      m.slotTypes.length).max?).getD 0 := by
    rw [hrun, nullRun_eq_max?,
      ← map_filter_eq_of_map_unindexed_eq (fun _ => rfl)
      (fun _ => rfl) hplaced.unindexed_eq, huntyped]
    congr 2
    apply List.map_congr_left
    intro m hm
    rw [(htyped m ((List.mem_filter.1 hm).1)).1]
  have hslots : ((ms.filter fun m => !m.placement.allNull).flatMap fun m =>
      m.placement.slots) =
      q.typedWalk.flatMap fun m => m.placement.slots := by
    rw [List.flatMap_def, List.flatMap_def, ← htypedWalk]
    congr 1
    exact (map_filter_eq_of_map_unindexed_eq (fun _ => rfl)
      (fun _ => rfl) hplaced.unindexed_eq).symm
  have htiles : Tiles q.nullRun q.typedWalk stop := by
    rw [hrun, ← htypedWalk]
    exact hplaced.tiles
  rw [← hrun, hslots] at htable
  have hfront : (List.replicate q.nullRun (none : Option Reference)).length =
    q.nullRun :=
    List.length_replicate
  constructor
  case slots_eq => exact fun m hm => (htyped m hm).1
  case nullRun_eq => exact hrunMax
  case take_nullRun =>
    rw [htable]
    exact List.take_left' hfront
  case untyped =>
    intro m hm hnull
    have hallNull : m.placement.allNull = true := by
      rw [(htyped m hm).2, decide_eq_true hnull]
    refine ⟨hallNull, hplaced.null m hm hallNull, ?_⟩
    rw [hrunMax]
    apply List.le_max?_getD_of_mem
    exact List.mem_map_of_mem (List.mem_filter.2 ⟨hm, decide_eq_true hnull⟩)
  case typed =>
    intro m hm hsome
    refine ⟨by rw [(htyped m hm).2, decide_eq_false hsome], ?_⟩
    have hmem : m ∈ q.typedWalk := List.mem_filter.2 ⟨hm, decide_eq_true hsome⟩
    rw [htable, ← (htyped m hm).1]
    exact htiles.take_drop_eq hfront hmem
  case tiles =>
    have hlength : q.typeTable.length = stop := by
      rw [htable, List.length_append, hfront, ← htiles.stop_eq]
    rw [hlength]
    exact htiles
  case disjoint => exact htiles.pairwise
  case bounded =>
    intro m hm
    rw [← htypedWalk, List.mem_filter] at hm
    exact hplaced.bounded m hm.1 hm.2

/-- Finding types and giving indices changes nothing else. -/
theorem map_unplaced_eq
    {is placed : List Interface}
    (h : placed.map (Interface.mapMessages unindexed) =
      (is.map (Interface.mapMessages withTypes)).map
      (Interface.mapMessages unindexed)) :
    placed.map (Interface.mapMessages Message.unplaced) =
      is.map (Interface.mapMessages Message.unplaced) := by
  have through (f : Message → Message) (hf : ∀ m, (f m).unplaced = m.unplaced)
      (i : Interface) :
      (i.mapMessages f).mapMessages Message.unplaced =
      i.mapMessages Message.unplaced := by
    simp [Interface.mapMessages, Function.comp_def, hf]
  have hcongr := congrArg (List.map (Interface.mapMessages Message.unplaced)) h
  simpa [Function.comp_def, through unindexed (fun _ => rfl),
    through withTypes (fun _ => rfl)]
    using hcongr

end Layout

open Layout in
/-- What layout does: it gives the messages their types, places them one behind
the other and writes the table. -/
theorem Protocol.placed_of_layOut
    {p q : Protocol} (h : p.layOut = .ok q) {ms : List Message}
    (hms : ms = (p.mapMessages withTypes).walk) :
    q.unplaced = p.unplaced ∧
      (∃ stop, Placed (Layout.nullRun ms) ms q.walk stop) ∧
      q.nullRun = Layout.nullRun ms ∧
      q.typeTable = List.replicate (Layout.nullRun ms) none ++
        (ms.filter fun m => !m.placement.allNull).flatMap
          fun m => m.placement.slots := by
  simp only [Protocol.layOut, Chain.bind_eq_ok_iff, Chain.pure_eq_ok_iff] at h
  obtain ⟨collected, hcollected, interfaces, hinterfaces, rfl⟩ := h
  have hcollected : collected =
    p.interfaces.map (Interface.mapMessages withTypes) :=
    Chain.eq_map_of_mapM_eq_ok (fun _ _ => collectInterface_eq_mapMessages)
      hcollected
  have hwalk : collected.flatMap Interface.messages = ms := by
    rw [hcollected, hms]
    rfl
  obtain ⟨hplaced, hsame⟩ := placeInterfaces_placed hinterfaces
  rw [hwalk] at hplaced
  refine ⟨?_, hplaced, by rw [hwalk], by rw [hwalk]⟩
  rw [hcollected] at hsame
  simp only [Protocol.unplaced, Protocol.mapMessages, map_unplaced_eq hsame]

theorem Protocol.unplaced_layOut {p q : Protocol} (h : p.layOut = .ok q) :
    q.unplaced = p.unplaced :=
  (placed_of_layOut h rfl).1

open Layout in
theorem Protocol.sound_of_layOut {p q : Protocol} (h : p.layOut = .ok q) :
    Sound q := by
  obtain ⟨-, ⟨stop, hplaced⟩, hrun, htable⟩ := placed_of_layOut h rfl
  refine sound_of_placed ?_ hplaced hrun htable
  intro m hm
  rw [p.walk_mapMessages withTypes] at hm
  obtain ⟨n, -, rfl⟩ := List.mem_map.1 hm
  exact typed_withTypes n

open Layout in
/-- Layout keeps the protocol as it is and adds a sound type table. -/
theorem Protocol.layOut_sound
    {p q : Protocol} (h : p.layOut = .ok q) :
    q.unplaced = p.unplaced ∧ Sound q :=
  ⟨unplaced_layOut h, sound_of_layOut h⟩

/-- A protocol of two interfaces. Its messages have no, two and three values
without a type, two values of which the first has one, and a result behind its
only argument. -/
def Layout.sample : Protocol :=
  let buffer : Argument :=
    { kind := .object, interface := "t_buffer",
      resolvedInterface := some ⟨[], "buffer", "t_buffer"⟩ }
  let pool : Argument :=
    { kind := .newId, interface := "x_pool",
      resolvedInterface := some ⟨"x", "pool", "x_pool"⟩ }
  { interfaces := [
      { requests := [{ name := "ping" },
          { name := "attach", args := [buffer, { kind := .int }] }]
        events :=
          [{ name := "bind",
             args := [{ kind := .uint }, { kind := .string },
               { kind := .newId }] }] },
      { requests := [{ name := "set",
                       args := [{ kind := .int }, { kind := .string }] }]
        events :=
          [{ name := "create", args := [{ kind := .fd }], result := some pool,
             resultIndex := 1 }] }] }

/-- The run of the sample has three slots, and two messages lie behind it. -/
theorem Layout.sample_layOut_sound :
    ∃ q, Layout.sample.layOut = .ok q ∧ q.nullRun = 3 ∧
      q.typeTable.map describeSlot =
        ["<null>", "<null>", "<null>", "buffer", "<null>", "x.pool",
        "<null>"].map Text.ofString ∧
      q.typedWalk.map (fun m => m.placement.typeIndex) = [3, 5] ∧
      q.unplaced = Layout.sample.unplaced ∧ Layout.Sound q :=
  ⟨_, rfl, rfl, by decide, by decide, Protocol.layOut_sound rfl⟩

end ProtocolCorpus
