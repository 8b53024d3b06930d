import Std.Data.HashSet.Lemmas
import ProtocolCorpus.Diagnostic.Bag
import ProtocolCorpus.Proofs.InPlace
import ProtocolCorpus.Proofs.Violations
import ProtocolCorpus.Resolution.Pass

/-!
# Nothing is rejected in silence

Reading, validation and resolution each say in the end whether a document may
pass. Whenever one of them says no, an error is among the findings it returns,
and dropping repeated findings does not lose it.
-/

namespace ProtocolCorpus

/-! ## Repeated findings -/

namespace Seen

variable {ds : List Diagnostic}

/-- Every finding is in memory already or is kept in one of its reports. -/
theorem exists_mem_fresh {s : Seen} {d : Diagnostic} (hd : d ∈ ds) :
    s.keys.contains d.key = true ∨ ∃ e ∈ s.fresh ds, e.key = d.key := by
  induction ds generalizing s with
  | nil => cases hd
  | cons x ds ih =>
    rw [fresh]
    split
    next hseen =>
      rcases List.mem_cons.1 hd with rfl | hrest
      · exact .inl hseen
      · exact ih hrest
    next =>
      rcases List.mem_cons.1 hd with rfl | hrest
      · exact .inr ⟨d, List.mem_cons_self, rfl⟩
      · rcases ih (s := ⟨s.keys.insert x.key⟩) hrest with hseen | ⟨e, he, hkey⟩
        · rw [Std.HashSet.contains_insert, Bool.or_eq_true, beq_iff_eq] at hseen
          rcases hseen with hkey | hseen
          · exact .inr ⟨x, List.mem_cons_self, hkey⟩
          · exact .inl hseen
        · exact .inr ⟨e, List.mem_cons_of_mem x he, hkey⟩

/-- An error stays an error when repeated findings are dropped. -/
theorem exists_error_mem_fresh (h : ∃ d ∈ ds, d.isError = true) :
    ∃ d ∈ ({} : Seen).fresh ds, d.isError = true := by
  obtain ⟨d, hd, herror⟩ := h
  rcases exists_mem_fresh (s := {}) hd with hseen | ⟨e, he, hkey⟩
  · simp at hseen
  · have hseverity : e.severity = d.severity :=
      congrArg Diagnostic.Key.severity hkey
    refine ⟨e, he, ?_⟩
    rw [Diagnostic.isError, hseverity]
    exact herror

/-- Findings that all differ are all kept. -/
theorem fresh_eq_self {s : Seen}
    (hnew : ∀ d ∈ ds, s.keys.contains d.key = false)
    (hdistinct : (ds.map Diagnostic.key).Nodup) :
    s.fresh ds = ds := by
  induction ds generalizing s with
  | nil => rfl
  | cons x ds ih =>
    obtain ⟨hx, hds⟩ := List.forall_mem_cons.1 hnew
    obtain ⟨hkey, hdistinct⟩ := List.nodup_cons.1 hdistinct
    rw [fresh, hx, if_neg Bool.false_ne_true, ih _ hdistinct]
    intro d hd
    have hne : x.key ≠ d.key := fun heq => hkey (heq ▸ List.mem_map_of_mem hd)
    rw [Std.HashSet.contains_insert, hds d hd, Bool.or_false]
    exact beq_eq_false_iff_ne.2 hne

end Seen

/-! ## Reading -/

namespace Document

variable {limit : Int}

theorem exists_error_of_run_eq_none {file : UInt32} {ending : Markup.Ending}
    {last : Nat}
    {r : Reading} {span : Span} {start : Nat} {events : List Markup.Located}
    (h : (Reading.run file limit ending last r span start events).1 = none) :
    ∃ d ∈ (Reading.run file limit ending last r span start events).2,
      d.isError = true := by
  induction events generalizing r span start with
  | nil =>
    unfold Reading.run at h ⊢
    split at h
    next hlarge =>
      rw [if_pos hlarge]
      exact ⟨_, List.mem_singleton_self _, rfl⟩
    next hlarge =>
      rw [if_neg hlarge]
      cases ending with
      | complete => cases h
      | failed fault line => exact ⟨_, List.mem_singleton_self _, rfl⟩
  | cons e es ih =>
    rw [Reading.run] at h ⊢
    split at h
    next hlarge =>
      rw [if_pos hlarge]
      exact ⟨_, List.mem_singleton_self _, rfl⟩
    next hlarge =>
      rw [if_neg hlarge]
      obtain ⟨d, hd, herror⟩ := ih h
      exact ⟨d, List.mem_append_right _ hd, herror⟩

/-- A text that is no document is reported. -/
theorem exists_error_of_read_eq_none {f : Source.File}
    (h : (read limit f).1 = none) :
    ∃ d ∈ (read limit f).2, d.isError = true := by
  rw [read_eq_stackRead, stackRead] at h ⊢
  split at h
  next hlimit =>
    rw [if_pos hlimit]
    exact ⟨_, List.mem_singleton_self _, rfl⟩
  next hlimit =>
    rw [if_neg hlimit]
    dsimp only at h ⊢
    split at h
    next hrun => exact exists_error_of_run_eq_none hrun
    next =>
      split at h
      next =>
        exact ⟨_, List.mem_append_right _ (List.mem_singleton_self _), rfl⟩
      next => cases h

theorem exists_protocol_of_read_eq_some {f : Source.File} {d : Document}
    (h : (read limit f).1 = some d) :
    ∃ p, d.protocol = some p := by
  rw [read_eq_stackRead, stackRead] at h
  split at h
  next => cases h
  next =>
    dsimp only at h
    split at h
    next => cases h
    next =>
      split at h
      next => cases h
      next p _ =>
        cases h
        exact ⟨p, rfl⟩

end Document

/-! ## Validation -/

namespace Validation

def AllErrors (ds : List Diagnostic) : Prop :=
  ∀ d ∈ ds, d.isError = true

theorem allErrors_nil :
    AllErrors [] := by
  intro d hd
  cases hd

theorem AllErrors.append
    {ds es : List Diagnostic} (hds : AllErrors ds) (hes : AllErrors es) :
    AllErrors (ds ++ es) := by
  intro d hd
  rcases List.mem_append.1 hd with hd | hd
  · exact hds d hd
  · exact hes d hd

theorem allErrors_ite
    {p : Prop} [Decidable p] {d : Diagnostic} (hd : d.isError = true) :
    AllErrors (if p then [d] else []) := by
  split
  next =>
    intro e he
    rw [List.mem_singleton.1 he]
    exact hd
  next => exact allErrors_nil

theorem allErrors_argument (outer : Coordinates) (a : Argument) :
    AllErrors (argument outer a) :=
  ((allErrors_ite rfl).append (allErrors_ite rfl)).append (allErrors_ite rfl)

theorem allErrors_message (protocol interface : Text) (earlier : List Text)
    (m : Message) :
    AllErrors (message protocol interface earlier m) := by
  refine (((allErrors_ite rfl).append (allErrors_ite rfl)).append ?_).append ?_
  · intro d hd
    obtain ⟨a, -, hda⟩ := List.mem_flatMap.1 hd
    exact allErrors_argument _ a d hda
  · split
    next =>
      intro d hd
      rw [List.mem_singleton.1 hd]
      rfl
    next => exact allErrors_nil

theorem allErrors_messages (protocol interface : Text) (earlier : List Text)
    (ms : List Message) :
    AllErrors (messages protocol interface earlier ms) := by
  induction ms generalizing earlier with
  | nil => exact allErrors_nil
  | cons m ms ih =>
    exact (allErrors_message protocol interface earlier m).append (ih _)

theorem allErrors_enums (place : Coordinates) (earlier : List Text)
    (es : List Enumeration) :
    AllErrors (enums place earlier es) := by
  induction es generalizing earlier with
  | nil => exact allErrors_nil
  | cons e es ih =>
    exact ((allErrors_ite rfl).append (allErrors_ite rfl)).append (ih _)

theorem allErrors_interface (protocol : Text) (i : Interface) :
    AllErrors (interface protocol i) :=
  ((allErrors_enums _ _ _).append (allErrors_messages _ _ _ _)).append
    (allErrors_messages _ _ _ _)

theorem allErrors_interfaces (protocol : Text) (earlier is : List Interface) :
    AllErrors (interfaces protocol earlier is).1 := by
  induction is generalizing earlier with
  | nil => exact allErrors_nil
  | cons i is ih =>
    unfold interfaces
    split
    next =>
      intro d hd
      rcases List.mem_cons.1 hd with rfl | hd
      · rfl
      · exact ih earlier d hd
    next => exact (allErrors_interface protocol i).append (ih _)

theorem allErrors_protocol (p : Protocol) :
    AllErrors (protocol p).1 :=
  (allErrors_ite rfl).append (allErrors_interfaces _ _ _)

end Validation

/-- A protocol that is not valid is reported. -/
theorem Document.exists_error_of_validate_eq_false
    {d : Document} {p : Protocol} (hp : d.protocol = some p)
    (h : d.validate.valid = false) :
    ∃ e ∈ d.validate.diagnostics, e.isError = true := by
  simp only [validate_of_protocol hp] at h ⊢
  obtain ⟨e, he⟩ := List.exists_mem_of_ne_nil _ (List.isEmpty_eq_false_iff.1 h)
  exact ⟨e, he, Validation.allErrors_protocol p e he⟩

/-! ## Resolution -/

namespace Resolution

variable {p : Progress}

/-- Resolution has failed if and only if it has found an error. -/
def Progress.Honest (p : Progress) : Prop :=
  p.failed = p.diagnostics.any Diagnostic.isError

theorem Progress.Honest.report (hp : p.Honest) {d : Diagnostic}
    (hd : d.isError = false) :
    (p.report d).Honest := by
  rw [Progress.Honest, Progress.report, List.any_append, ← hp, List.any_cons,
    hd]
  exact (Bool.or_false _).symm

theorem Progress.Honest.reject {d : Diagnostic} (hd : d.isError = true) :
    (p.reject d).Honest := by
  rw [Progress.Honest, Progress.reject, Progress.report, List.any_append,
    List.any_cons, hd]
  exact (Bool.or_true _).symm

theorem Progress.Honest.need (hp : p.Honest) (r : Registry) (d : Document)
    (place : Coordinates) (span : Span) (o : Owner) :
    (p.need r d place span o).Honest := by
  unfold Progress.need
  split
  next => exact hp
  next =>
    split
    next => exact hp
    next =>
      split
      next => exact hp
      next =>
        split
        next => exact hp
        next => exact .reject rfl

theorem Progress.Honest.needOwner (hp : p.Honest) (r : Registry) (d : Document)
    (place : Coordinates) (span : Span) (o? : Option Owner) :
    (p.needOwner r d place span o?).Honest := by
  cases o? with
  | none => exact hp
  | some o => exact hp.need r d place span o

theorem Progress.Honest.visitInterface (hp : p.Honest) (r : Registry)
    (d : Document) (place : Coordinates) (a : Argument) :
    (visitInterface r d place p a).Honest := by
  unfold Resolution.visitInterface
  split
  next => exact hp
  next =>
    split
    next => exact hp.needOwner _ _ _ _ _
    next => exact .reject rfl

theorem Progress.Honest.visitEnum (hp : p.Honest) (r : Registry) (d : Document)
    (i : Interface) (place : Coordinates) (a : Argument) :
    (visitEnum r d i place p a).Honest := by
  unfold Resolution.visitEnum
  split
  next => exact hp
  next =>
    split
    next => exact .reject rfl
    next t _ =>
      have howner := hp.needOwner r d place a.span t.owner
      dsimp only
      split
      next => exact howner.report rfl
      next =>
        split
        next => exact .reject rfl
        next => exact howner

theorem honest_visit (r : Registry) (d : Document) :
    (visit r d).Honest := by
  unfold visit
  split
  next => rfl
  next proto _ =>
    refine List.foldlRecOn proto.messages (visitMessage r d proto.name) rfl ?_
    intro p hp im _
    refine List.foldlRecOn im.2.wireArgs _ hp ?_
    intro p hp a _
    exact (hp.visitInterface r d _ a).visitEnum r d im.1 _ a

end Resolution

/-- A document passes resolution if and only if no error is found. -/
theorem Document.resolve_ok_eq (r : Registry) (d : Document) :
    (d.resolve r).ok = !(d.resolve r).diagnostics.any Diagnostic.isError := by
  rw [resolve]
  exact congrArg (!·) (Resolution.honest_visit r d)

end ProtocolCorpus
