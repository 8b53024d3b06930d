import Mathlib.Tactic.MkIffOfInductiveProp
import ProtocolCorpus.Proofs.Rejection
import ProtocolCorpus.Proofs.Results
import ProtocolCorpus.Proofs.TypeTable

/-!
# What validation decides

The rules that a protocol has to follow are said here for arguments, messages,
interfaces and protocols, apart from the walk that looks for violations. The
walk carries the names it has met along, passes over an interface that is
declared again, and sets results apart on its way. For all that, it finds
nothing exactly if the rules are followed, and then every message has its result
set apart.
-/

namespace ProtocolCorpus

/-! ## The rules -/

/-- An argument has only the properties that its kind allows. -/
@[mk_iff]
structure Argument.Admissible (a : Argument) : Prop where
  nullable : a.nullable = true → a.kind ∈ [.string, .object, .array]
  interface : a.interface ≠ [] → a.kind ∈ [.object, .newId]
  enum : a.enum ≠ [] → a.kind ∈ [.int, .uint]

/-- A message that destroys its object says so, and it has at most one result.
-/
@[mk_iff]
structure Message.Admissible (m : Message) : Prop where
  destructor : m.name = "destroy" → m.destructor = true
  result : (m.args.filter Argument.isTypedNewId).length ≤ 1
  args : ∀ a ∈ m.args, a.Admissible

/-- No two enumerations, requests or events of an interface have the same name,
and enumerations have entries. -/
@[mk_iff]
structure Interface.Admissible (i : Interface) : Prop where
  enums_nodup : (i.enums.map Enumeration.name).Nodup
  entries : ∀ e ∈ i.enums, e.entries ≠ []
  requests_nodup : (i.requests.map Message.name).Nodup
  events_nodup : (i.events.map Message.name).Nodup
  messages : ∀ m ∈ i.messages, m.Admissible

/-- A protocol has interfaces, no two of which have the same name. -/
@[mk_iff]
structure Protocol.Admissible (p : Protocol) : Prop where
  nonempty : p.interfaces ≠ []
  nodup : (p.interfaces.map Interface.name).Nodup
  interfaces : ∀ i ∈ p.interfaces, i.Admissible

/-- All arguments of the message stand in one row. -/
@[mk_iff]
structure Message.Whole (m : Message) : Prop where
  normalized : m.normalized = false
  result : m.result = none

instance (a : Argument) : Decidable a.Admissible :=
  decidable_of_iff' _ a.admissible_iff

instance (m : Message) : Decidable m.Admissible :=
  decidable_of_iff' _ m.admissible_iff

instance (i : Interface) : Decidable i.Admissible :=
  decidable_of_iff' _ i.admissible_iff

instance (p : Protocol) : Decidable p.Admissible :=
  decidable_of_iff' _ p.admissible_iff

instance (m : Message) : Decidable m.Whole :=
  decidable_of_iff' _ m.whole_iff

namespace Validation

variable {earlier : List Text}

/-! ## Names met along the way -/

/-- No name occurs twice or has been met before. -/
def Unrepeated (earlier names : List Text) : Prop :=
  names.Nodup ∧ ∀ n ∈ names, n ∉ earlier

theorem unrepeated_nil (earlier : List Text) :
    Unrepeated earlier [] :=
  ⟨List.nodup_nil, by simp⟩

theorem unrepeated_nil_left {names : List Text} :
    Unrepeated [] names ↔ names.Nodup := by
  simp [Unrepeated]

theorem unrepeated_cons_iff {names : List Text} {n : Text} :
    Unrepeated earlier (n :: names) ↔ n ∉ earlier ∧
    Unrepeated (n :: earlier) names := by
  simp only [Unrepeated, List.nodup_cons, List.mem_cons, forall_eq_or_imp,
    not_or]
  constructor
  · rintro ⟨⟨hn, hnodup⟩, hearlier, hnames⟩
    refine ⟨hearlier, hnodup, fun k hk => ⟨?_, hnames k hk⟩⟩
    rintro rfl
    exact hn hk
  · rintro ⟨hearlier, hnodup, hnames⟩
    exact ⟨⟨fun hn => (hnames n hn).1 rfl, hnodup⟩, hearlier, fun k hk =>
      (hnames k hk).2⟩

/-! ## The walk -/

theorem ite_singleton_eq_nil_iff {p : Prop} [Decidable p] {d : Diagnostic} :
    (if p then [d] else []) = [] ↔ ¬p := by
  simp

theorem argument_eq_nil_iff {outer : Coordinates} {a : Argument} :
    argument outer a = [] ↔ a.Admissible := by
  simp only [argument, List.append_eq_nil_iff, ite_singleton_eq_nil_iff,
    Bool.and_eq_true, Bool.not_eq_true', List.isEmpty_eq_false_iff, not_and,
    Bool.not_eq_false]
  constructor
  · rintro ⟨⟨hnullable, hinterface⟩, henum⟩
    refine ⟨fun h => ?_, fun h => ?_, fun h => ?_⟩
    · simpa [ArgumentKind.allowsNullable, or_assoc] using hnullable h
    · simpa [ArgumentKind.allowsInterface] using hinterface h
    · simpa [ArgumentKind.allowsEnum] using henum h
  · intro h
    refine ⟨⟨fun hnullable => ?_, fun hinterface => ?_⟩, fun henum => ?_⟩
    · simpa [ArgumentKind.allowsNullable, or_assoc] using h.nullable hnullable
    · simpa [ArgumentKind.allowsInterface] using h.interface hinterface
    · simpa [ArgumentKind.allowsEnum] using h.enum henum

theorem message_eq_nil_iff {protocol interface : Text} {m : Message}
    (hm : m.Whole) :
    message protocol interface earlier m = [] ↔ m.name ∉ earlier ∧
      m.Admissible := by
  have hwire : m.wireArgs = m.args := by rw [Message.wireArgs, hm.result]
  have hdestructor : (m.name == "destroy" && !m.destructor) = true ↔
      ¬(m.name = "destroy" → m.destructor = true) := by
    simp
  have hsurplus : m.surplus = none ↔
      (m.args.filter Argument.isTypedNewId).length ≤ 1 := by
    rw [Message.surplus_eq hm.result hm.normalized, List.getElem?_eq_none_iff]
  simp only [message, List.append_eq_nil_iff, ite_singleton_eq_nil_iff,
    List.flatMap_eq_nil_iff, argument_eq_nil_iff, List.contains_iff_mem,
    hdestructor, not_not, hwire]
  constructor
  · rintro ⟨⟨⟨hnew, hmarked⟩, hargs⟩, hlast⟩
    refine ⟨hnew, hmarked, hsurplus.1 ?_, hargs⟩
    by_contra hsome
    obtain ⟨extra, hextra⟩ := Option.ne_none_iff_exists'.1 hsome
    rw [hextra] at hlast
    exact List.cons_ne_nil _ _ hlast
  · rintro ⟨hnew, h⟩
    refine ⟨⟨⟨hnew, h.destructor⟩, h.args⟩, ?_⟩
    rw [hsurplus.2 h.result]

theorem messages_eq_nil_iff {protocol interface : Text} {ms : List Message}
    (hms : ∀ m ∈ ms, m.Whole) :
    messages protocol interface earlier ms = [] ↔
      Unrepeated earlier (ms.map Message.name) ∧ ∀ m ∈ ms, m.Admissible := by
  induction ms generalizing earlier with
  | nil => simp [messages, unrepeated_nil]
  | cons m ms ih =>
    rw [List.forall_mem_cons] at hms
    rw [messages, List.append_eq_nil_iff, message_eq_nil_iff hms.1, ih hms.2,
      List.map_cons, unrepeated_cons_iff, List.forall_mem_cons]
    tauto

theorem enums_eq_nil_iff {place : Coordinates} {es : List Enumeration} :
    enums place earlier es = [] ↔
      Unrepeated earlier (es.map Enumeration.name) ∧ ∀ e ∈ es, e.entries ≠
      [] := by
  induction es generalizing earlier with
  | nil => simp [enums, unrepeated_nil]
  | cons e es ih =>
    simp only [enums, List.append_eq_nil_iff, ite_singleton_eq_nil_iff,
      List.contains_iff_mem, List.isEmpty_iff, ih, List.map_cons,
      unrepeated_cons_iff, List.forall_mem_cons]
    tauto

theorem interface_eq_nil_iff
    {protocol : Text} {i : Interface} (hi : ∀ m ∈ i.messages, m.Whole) :
    interface protocol i = [] ↔ i.Admissible := by
  obtain ⟨hrequests, hevents⟩ := List.forall_mem_append.1 hi
  simp only [interface, List.append_eq_nil_iff, enums_eq_nil_iff,
    messages_eq_nil_iff hrequests, messages_eq_nil_iff hevents,
    unrepeated_nil_left]
  constructor
  · rintro ⟨⟨⟨henums, hentries⟩, hrequestNames, hrequests⟩,
      heventNames, hevents⟩
    exact ⟨henums, hentries, hrequestNames, heventNames,
      List.forall_mem_append.2 ⟨hrequests, hevents⟩⟩
  · intro h
    obtain ⟨hrequests, hevents⟩ := List.forall_mem_append.1 h.messages
    exact ⟨⟨⟨h.enums_nodup, h.entries⟩, h.requests_nodup, hrequests⟩,
      h.events_nodup, hevents⟩

/-- An interface that is declared again is not looked into. That does no harm,
for it is reported. -/
theorem interfaces_eq_nil_iff
    {protocol : Text} {earlier is : List Interface}
    (his : ∀ i ∈ is, ∀ m ∈ i.messages, m.Whole) :
    (interfaces protocol earlier is).1 = [] ↔
      Unrepeated (earlier.map Interface.name) (is.map Interface.name) ∧
      ∀ i ∈ is, i.Admissible := by
  induction is generalizing earlier with
  | nil => simp [interfaces, unrepeated_nil]
  | cons i is ih =>
    rw [List.forall_mem_cons] at his
    rw [interfaces, List.map_cons, unrepeated_cons_iff, List.forall_mem_cons]
    split
    next first hfirst =>
      have hagain : i.name ∈ earlier.map Interface.name :=
        List.mem_map.2
          ⟨first, List.mem_of_find?_eq_some
          hfirst, by simpa using List.find?_some hfirst⟩
      simp [hagain]
    next hnone =>
      have hnew : i.name ∉ earlier.map Interface.name := by simpa using hnone
      rw [List.append_eq_nil_iff, interface_eq_nil_iff his.1, ih his.2,
        List.map_cons]
      tauto

theorem interfaces_snd_eq
    {protocol : Text} {earlier is : List Interface}
    (h : (interfaces protocol earlier is).1 = []) :
    (interfaces protocol earlier is).2 =
      is.map (Interface.mapMessages Message.normalize) := by
  induction is generalizing earlier with
  | nil => rfl
  | cons i is ih =>
    rw [interfaces] at h ⊢
    split at h
    next => exact absurd h (List.cons_ne_nil _ _)
    next => exact congrArg (_ :: ·) (ih (List.append_eq_nil_iff.1 h).2)

theorem protocol_eq_nil_iff
    {p : Protocol} (hp : ∀ m ∈ p.walk, m.Whole) :
    (protocol p).1 = [] ↔ p.Admissible := by
  have his : ∀ i ∈ p.interfaces, ∀ m ∈ i.messages, m.Whole :=
    fun i hi m hm => hp m (List.mem_flatMap_of_mem hi hm)
  simp only [protocol, List.append_eq_nil_iff, ite_singleton_eq_nil_iff,
    List.isEmpty_iff, interfaces_eq_nil_iff his, List.map_nil,
    unrepeated_nil_left, p.admissible_iff]

end Validation

/-! ## Documents -/

theorem Message.normalized_normalize (m : Message) :
    m.normalize.normalized = true := by
  unfold normalize
  split
  next h => exact h
  next => rfl

namespace Document

structure Decided (d : Document) (p : Protocol) (v : Verdict) : Prop where
  valid_iff : v.valid = true ↔ p.Admissible
  invalid_iff : v.valid = false ↔ ∃ e ∈ v.diagnostics, e.isError = true
  /-- In a valid document, every message has its result set apart, and nothing
  else has changed. -/
  document_eq : v.valid = true → v.document = d.normalize
  normalized : v.valid = true → ∀ q ∈ v.document.protocol, ∀ m ∈ q.walk,
    m.normalized = true

/-- Validation decides whether a protocol follows the rules. -/
theorem decided_validate
    {d : Document} {p : Protocol} (hp : d.protocol = some p)
    (hwhole : ∀ m ∈ p.walk, m.Whole) :
    Decided d p d.validate := by
  have hvalid : d.validate.valid = true ↔ (Validation.protocol p).1 = [] := by
    rw [validate_of_protocol hp]
    exact List.isEmpty_iff
  have hdocument : d.validate.valid = true → d.validate.document =
      d.normalize := by
    intro h
    have hinterfaces : (Validation.interfaces p.name [] p.interfaces).1 = [] :=
      (List.append_eq_nil_iff.1 (hvalid.1 h)).2
    have hprotocol : (Validation.protocol p).2 =
        p.mapMessages Message.normalize := by
      change { p with
          interfaces := (Validation.interfaces p.name [] p.interfaces).2 } = _
      rw [Validation.interfaces_snd_eq hinterfaces, Protocol.mapMessages]
    rw [validate_of_protocol hp, normalize, mapProtocol, hp, Option.map_some,
      ← hprotocol]
  constructor
  case valid_iff => rw [hvalid, Validation.protocol_eq_nil_iff hwhole]
  case invalid_iff =>
    constructor
    · exact exists_error_of_validate_eq_false hp
    · rintro ⟨e, he, -⟩
      rw [validate_of_protocol hp] at he ⊢
      exact List.isEmpty_eq_false_iff.2 (List.ne_nil_of_mem he)
  case document_eq => exact hdocument
  case normalized =>
    intro h q hq m hm
    rw [hdocument h, normalize, mapProtocol, hp, Option.map_some,
      Option.mem_some_iff] at hq
    subst hq
    rw [Protocol.walk_mapMessages, List.mem_map] at hm
    obtain ⟨n, -, rfl⟩ := hm
    exact n.normalized_normalize

/-- A protocol that uses what the rules allow: one name for a request and an
event, an object that may be absent, a result next to an object of an unknown
interface, an enumeration, and a destructor. -/
def orderly : Protocol :=
  { name := "p"
    interfaces := [{
      name := "p_seat"
      enums := [{ name := "mode", entries := [{ name := "idle" }] }]
      requests := [
        { name := "grab",
          args := [{ name := "id", kind := .newId, interface := "p_grab" },
          { name := "any", kind := .newId },
          { name := "on", kind := .object, nullable := true }] },
        { name := "destroy", destructor := true }]
      events :=
        [{ name := "grab",
           args := [{ name := "mode", kind := .uint, enum := "mode" }] }] }] }

/-- An interface that is declared again, where its second declaration lacks the
mark of a destructor. -/
def disorderly : Protocol :=
  { name := "p",
    interfaces :=
      [{ name := "p_seat" },
      { name := "p_seat", requests := [{ name := "destroy" }] }] }

theorem decided_orderly :
    (∀ m ∈ orderly.walk, m.Whole) ∧ orderly.Admissible ∧
      Decided { protocol := some orderly } orderly
      (validate { protocol := some orderly }) ∧
      (∀ m ∈ disorderly.walk, m.Whole) ∧ ¬disorderly.Admissible ∧
      Decided { protocol := some disorderly } disorderly
      (validate { protocol := some disorderly }) := by
  have horderly : ∀ m ∈ orderly.walk, m.Whole := by decide +kernel
  have hdisorderly : ∀ m ∈ disorderly.walk, m.Whole := by decide +kernel
  exact ⟨horderly, by decide +kernel, decided_validate rfl horderly,
    hdisorderly, by decide +kernel,
    decided_validate rfl hdisorderly⟩

end Document

end ProtocolCorpus
