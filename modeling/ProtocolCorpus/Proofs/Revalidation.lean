import ProtocolCorpus.Proofs.Validity

/-!
# Validating again

Validation sets the results of messages apart, so a second validation meets
another document than the first one did. All names and all arguments are still
there, and an interface that is declared again is passed over as before. So all
that was found is found again, with one exception: an argument that could have
been the result too is noticed only while the result is set apart, and that is
done once. A document in which nothing else is wrong is rejected first and valid
from then on.
-/

namespace ProtocolCorpus

/-! ## What is still there -/

namespace Message

/-- Setting the result apart changes the row of arguments, and nothing that a
message is known by. -/
theorem exists_normalize_eq (m : Message) :
    ∃ args result resultIndex generic,
      m.normalize = { m with
          args, result, resultIndex, generic, normalized := true } := by
  unfold normalize
  split
  next h =>
    refine ⟨m.args, m.result, m.resultIndex, m.generic, ?_⟩
    rw [← h]
  next => exact ⟨_, _, _, _, rfl⟩

theorem normalize_normalize (m : Message) :
    m.normalize.normalize = m.normalize :=
  normalize_of_normalized m.normalized_normalize

theorem surplus_normalize (m : Message) :
    m.normalize.surplus = none := by
  rw [surplus, if_pos m.normalized_normalize]

end Message

namespace Validation

/-! ## What is found again -/

/-- The finding is made again when the document is validated again. -/
def lasting (e : Diagnostic) : Bool :=
  e.code != .multipleTypedReturns

theorem filter_lasting_ite {p : Prop} [Decidable p] {e : Diagnostic}
    (he : lasting e = true) :
    (if p then [e] else []).filter lasting = if p then [e] else [] := by
  split
  next => rw [List.filter_cons_of_pos he, List.filter_nil]
  next => rfl

theorem lasting_iff {e : Diagnostic} :
    lasting e = true ↔ e.code ≠ .multipleTypedReturns :=
  bne_iff_ne

theorem isEmpty_filter_lasting_eq_iff {ds : List Diagnostic} :
    (ds.filter lasting).isEmpty = ds.isEmpty ↔
      (ds ≠ [] → ∃ e ∈ ds, e.code ≠ .multipleTypedReturns) := by
  by_cases hnone : ds = []
  · simp [hnone]
  · rw [List.isEmpty_eq_false_iff.2 hnone, List.isEmpty_eq_false_iff, ne_eq,
      List.filter_eq_nil_iff]
    simp only [lasting_iff, not_forall, not_not, ne_eq, hnone,
      not_false_eq_true, true_imp_iff, exists_prop]

theorem filter_lasting_argument (outer : Coordinates) (a : Argument) :
    (argument outer a).filter lasting = argument outer a := by
  simp only [argument, List.filter_append]
  rw [filter_lasting_ite rfl, filter_lasting_ite rfl, filter_lasting_ite rfl]

theorem filter_lasting_enums (place : Coordinates) (earlier : List Text)
    (es : List Enumeration) :
    (enums place earlier es).filter lasting = enums place earlier es := by
  induction es generalizing earlier with
  | nil => rfl
  | cons e es ih =>
    rw [enums, List.filter_append, List.filter_append, filter_lasting_ite rfl,
      filter_lasting_ite rfl, ih]

theorem message_normalize_perm (protocol interface : Text) (earlier : List Text)
    (m : Message) :
    (message protocol interface earlier m.normalize).Perm
      ((message protocol interface earlier m).filter lasting) := by
  have hargs : ∀ (outer : Coordinates) (as : List Argument),
      (as.flatMap (argument outer)).filter lasting =
      as.flatMap (argument outer) := by
    intro outer as
    rw [List.filter_flatMap]
    simp only [filter_lasting_argument]
  obtain ⟨args, result, resultIndex, generic, heq⟩ := m.exists_normalize_eq
  have hname : m.normalize.name = m.name := by rw [heq]
  have hkind : m.normalize.kind = m.kind := by rw [heq]
  have hdestructor : m.normalize.destructor = m.destructor := by rw [heq]
  have hspan : m.normalize.span = m.span := by rw [heq]
  simp only [message, m.surplus_normalize, hname, hkind, hdestructor, hspan,
    List.filter_append, hargs]
  rw [filter_lasting_ite rfl, filter_lasting_ite rfl]
  apply List.Perm.append
  · exact (m.wireArgs_normalize_perm.flatMap_right _).append_left _
  · cases m.surplus with
    | none => exact List.Perm.refl _
    | some extra => exact List.Perm.refl _

theorem messages_normalize_perm (protocol interface : Text)
    (earlier : List Text) (ms : List Message) :
    (messages protocol interface earlier (ms.map Message.normalize)).Perm
      ((messages protocol interface earlier ms).filter lasting) := by
  induction ms generalizing earlier with
  | nil => exact List.Perm.refl _
  | cons m ms ih =>
    obtain ⟨args, result, resultIndex, generic, heq⟩ := m.exists_normalize_eq
    have hname : m.normalize.name = m.name := by rw [heq]
    rw [List.map_cons, messages, messages, hname, List.filter_append]
    exact (message_normalize_perm protocol interface earlier m).append
      (ih (m.name :: earlier))

theorem interface_normalize_perm (protocol : Text) (i : Interface) :
    (interface protocol (i.mapMessages Message.normalize)).Perm
    ((interface protocol i).filter lasting) := by
  rw [interface, interface, List.filter_append, List.filter_append,
    filter_lasting_enums]
  exact ((messages_normalize_perm protocol i.name [] i.requests).append_left
    _).append
    (messages_normalize_perm protocol i.name [] i.events)

/-- A second walk meets the same names, so it passes over the same interfaces.
The others have had their results set apart, and so have those that it has met
before. -/
theorem interfaces_again (protocol : Text) (earlier is : List Interface) :
    (interfaces protocol (earlier.map (Interface.mapMessages Message.normalize))
        (interfaces protocol earlier is).2).1.Perm
        ((interfaces protocol earlier is).1.filter lasting) ∧
      (interfaces protocol
        (earlier.map (Interface.mapMessages Message.normalize))
        (interfaces protocol earlier is).2).2 =
        (interfaces protocol earlier is).2 := by
  have hfind : ∀ (i : Interface) (earlier : List Interface),
      (earlier.map (Interface.mapMessages Message.normalize)).find?
      (fun e => e.name == i.name) =
        (earlier.find? fun e => e.name == i.name).map
        (Interface.mapMessages Message.normalize) := by
    intro i earlier
    rw [List.find?_map]
    rfl
  induction is generalizing earlier with
  | nil => exact ⟨List.Perm.refl _, rfl⟩
  | cons i is ih =>
    rw [interfaces]
    cases hearlier : earlier.find? fun e => e.name == i.name with
    | some first =>
      obtain ⟨hfindings, hrest⟩ := ih earlier
      rw [interfaces, hfind, hearlier]
      exact ⟨hfindings.cons _, congrArg (i :: ·) hrest⟩
    | none =>
      obtain ⟨hfindings, hrest⟩ := ih (i :: earlier)
      have hnew : (earlier.map (Interface.mapMessages Message.normalize)).find?
          (fun e => e.name == (i.mapMessages Message.normalize).name) =
          none := by
        rw [show (i.mapMessages Message.normalize).name = i.name from rfl,
          hfind, hearlier]
        rfl
      have hdone :
          (i.mapMessages Message.normalize).mapMessages Message.normalize =
          i.mapMessages Message.normalize := by
        apply Interface.mapMessages_eq_self
        intro m hm
        rw [Interface.messages_mapMessages, List.mem_map] at hm
        obtain ⟨n, -, rfl⟩ := hm
        exact n.normalize_normalize
      rw [interfaces, hnew]
      dsimp only
      rw [hdone, List.filter_append]
      exact ⟨(interface_normalize_perm protocol i).append hfindings,
        congrArg (_ :: ·) hrest⟩

theorem isEmpty_interfaces_snd (protocol : Text) (earlier is : List Interface) :
    (interfaces protocol earlier is).2.isEmpty = is.isEmpty := by
  cases is with
  | nil => rfl
  | cons i is =>
    rw [interfaces]
    split
    next => rfl
    next => rfl

theorem protocol_again (p : Protocol) :
    (protocol (protocol p).2).1.Perm ((protocol p).1.filter lasting) ∧
      (protocol (protocol p).2).2 = (protocol p).2 := by
  obtain ⟨hfindings, hinterfaces⟩ := interfaces_again p.name [] p.interfaces
  rw [List.map_nil] at hfindings hinterfaces
  constructor
  · simp only [protocol, isEmpty_interfaces_snd, List.filter_append]
    rw [filter_lasting_ite rfl]
    exact hfindings.append_left _
  · simp only [protocol, hinterfaces]

end Validation

namespace Document

/-- What a second validation says of a document, given what the first one has
said. -/
structure SaidAgain (first second : Verdict) : Prop where
  /-- The document is not changed again, so all further validations say what the
  second one says. -/
  document : second.document = first.document
  /-- All that was found is found again, but for the arguments that could have
  been the result too. -/
  diagnostics :
    second.diagnostics.Perm (first.diagnostics.filter Validation.lasting)
  /-- So the verdict lasts unless such arguments are all that is wrong. -/
  valid_eq_iff : second.valid = first.valid ↔
    (first.diagnostics ≠ [] → ∃ e ∈ first.diagnostics, e.code ≠
    .multipleTypedReturns)

/-- Validation of any document says the same again exactly if it found nothing,
or found something else than an argument that could have been the result too. -/
theorem saidAgain_validate (d : Document) :
    SaidAgain d.validate d.validate.document.validate := by
  cases hprotocol : d.protocol with
  | none =>
    have hfirst : d.validate = ⟨false, [], d⟩ := by rw [validate, hprotocol]
    have hsecond : d.validate.document.validate = d.validate := by
      rw [hfirst, hfirst]
    rw [hsecond]
    exact ⟨rfl, by rw [hfirst]; exact List.Perm.refl _, by simp [hfirst]⟩
  | some p =>
    obtain ⟨hfindings, hdone⟩ := Validation.protocol_again p
    have hfirst := validate_of_protocol hprotocol
    have hsecond := validate_of_protocol (d := d.validate.document)
      (p := (Validation.protocol p).2) (by rw [hfirst])
    rw [hdone] at hsecond
    rw [hsecond, hfirst]
    refine ⟨rfl, hfindings, ?_⟩
    rw [← Validation.isEmpty_filter_lasting_eq_iff, hfindings.isEmpty_eq]

/-- A request with two arguments that could be its result is all that is wrong.
-/
def indecisive : Document :=
  { protocol := some { name := "p",
                       interfaces :=
                         [{ name := "p_seat",
                            requests := [Message.attach] }] } }

/-- It is rejected first, and valid when it is validated again. -/
theorem indecisive_rejected_once :
    indecisive.validate.valid = false ∧
    indecisive.validate.document.validate.valid = true := by
  decide +kernel

end Document

end ProtocolCorpus
