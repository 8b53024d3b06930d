import ProtocolCorpus.Proofs.InPlace
import ProtocolCorpus.Proofs.Sites
import ProtocolCorpus.Proofs.TypeTable
import ProtocolCorpus.Proofs.Violations

/-!
# What reading leaves open

A document that was just read gives no reference a meaning, and all arguments of
a message stand in one row. Validation sets results apart and gives no meaning
either. So whatever a document says about the meaning of its references,
resolution has said.
-/

namespace ProtocolCorpus

variable {m : Message}

def Argument.Fresh (a : Argument) : Prop :=
  a.resolvedInterface = none ∧ a.resolvedEnum = none

structure Message.Fresh (m : Message) : Prop where
  args : ∀ a ∈ m.args, a.Fresh
  result : m.result = none
  generic : m.generic = none
  normalized : m.normalized = false

def Interface.Fresh (i : Interface) : Prop :=
  ∀ m ∈ i.messages, m.Fresh

def Protocol.Fresh (p : Protocol) : Prop :=
  ∀ i ∈ p.interfaces, i.Fresh

/-- A message in which no reference has a meaning, whether its result was set
apart or not. -/
structure Message.Unresolved (m : Message) : Prop where
  wire : ∀ a ∈ m.wireArgs, a.Fresh
  generic : m.generic = none ∨ m.generic = m.args.find? Argument.isGenericNewId

/-! ## Reading -/

namespace Document

variable {r : Reading}

def Frame.Fresh : Frame → Prop
  | .protocol p => p.Fresh
  | .interface i => i.Fresh
  | .message m => m.Fresh
  | .argument a => a.Fresh
  | _ => True

theorem Frame.Fresh.absorb
    {parent child : Frame} (hparent : parent.Fresh) (hchild : child.Fresh) :
    (parent.absorb child).Fresh := by
  fun_cases Frame.absorb parent child with
  | case1 p t => exact hparent
  | case2 p i =>
    intro j hj
    rcases List.mem_append.1 hj with hj | hj
    · exact hparent j hj
    · rw [List.mem_singleton.1 hj]
      exact hchild
  | case3 p s t => exact hparent
  | case4 i m hkind =>
    intro n hn
    rw [Interface.messages, List.append_assoc, List.mem_append, List.mem_append,
      List.mem_singleton] at hn
    rcases hn with hn | rfl | hn
    · exact hparent n (List.mem_append_left _ hn)
    · exact hchild
    · exact hparent n (List.mem_append_right _ hn)
  | case5 i m hkind =>
    intro n hn
    rw [Interface.messages, List.mem_append, List.mem_append,
      List.mem_singleton] at hn
    rcases hn with hn | hn | rfl
    · exact hparent n (List.mem_append_left _ hn)
    · exact hparent n (List.mem_append_right _ hn)
    · exact hchild
  | case6 i e => exact hparent
  | case7 i s t => exact hparent
  | case8 m a =>
    refine ⟨?_, hparent.result, hparent.generic, hparent.normalized⟩
    intro b hb
    rcases List.mem_append.1 hb with hb | hb
    · exact hparent.args b hb
    · rw [List.mem_singleton.1 hb]
      exact hchild
  | case9 m s t =>
    exact ⟨hparent.args, hparent.result, hparent.generic, hparent.normalized⟩
  | case10 e x => exact hparent
  | case11 e s t => exact hparent
  | case12 a s t => exact hparent
  | case13 e s t => exact hparent
  | case14 => exact hparent

theorem Frame.Fresh.addText
    {f : Frame} (h : f.Fresh) (data : Text) :
    (f.addText data).Fresh := by
  fun_cases Frame.addText data f with
  | case1 t => exact h
  | case2 s t => exact h
  | case3 => exact h

structure Reading.Fresh (r : Reading) : Prop where
  stack : ∀ f ∈ r.stack, f.Fresh
  protocol : ∀ p, r.protocol = some p → p.Fresh

theorem Reading.Fresh.close (h : r.Fresh) :
    r.close.Fresh := by
  fun_cases Reading.close r with
  | case1 hstack => exact h
  | case2 p hstack =>
    have hp : Frame.Fresh (.protocol p) := h.stack _ (by simp [hstack])
    refine ⟨by simp, ?_⟩
    intro q hq
    cases hq
    exact hp
  | case3 => exact ⟨by simp, h.protocol⟩
  | case4 child parent rest hstack =>
    have hfresh : ∀ f ∈ child :: parent :: rest, f.Fresh := hstack ▸ h.stack
    have hchild : child.Fresh := hfresh child (by simp)
    have hparent : parent.Fresh := hfresh parent (by simp)
    refine ⟨?_, h.protocol⟩
    intro f hf
    rcases List.mem_cons.1 hf with rfl | hf
    · exact hparent.absorb hchild
    · exact hfresh f (by simp [hf])

theorem Reading.Fresh.text (h : r.Fresh) (data : Text) :
    (r.text data).Fresh := by
  fun_cases Reading.text r data with
  | case1 hstack => exact h
  | case2 top rest hstack =>
    have hfresh : ∀ f ∈ top :: rest, f.Fresh := hstack ▸ h.stack
    refine ⟨?_, h.protocol⟩
    intro f hf
    rcases List.mem_cons.1 hf with rfl | hf
    · exact (hfresh top List.mem_cons_self).addText data
    · exact hfresh f (List.mem_cons_of_mem top hf)

theorem Reading.Fresh.push (h : r.Fresh) {f : Frame} (hf : f.Fresh)
    (imports : List Import) :
    Reading.Fresh { r with imports, stack := f :: r.stack } := by
  refine ⟨?_, h.protocol⟩
  intro g hg
  rcases List.mem_cons.1 hg with rfl | hg
  · exact hf
  · exact h.stack g hg

theorem fresh_openProtocol (a : Attributes) (c : Coordinates) :
    Frame.Fresh (.protocol (openProtocol a c).1) := by
  intro i hi
  cases hi

theorem fresh_openInterface (a : Attributes) (c : Coordinates) :
    Frame.Fresh (.interface (openInterface a c).1) := by
  intro m hm
  cases hm

theorem fresh_openMessage (kind : MessageKind) (a : Attributes)
    (c : Coordinates) :
    Frame.Fresh (.message (openMessage kind a c).1) := by
  refine ⟨?_, rfl, rfl, rfl⟩
  intro b hb
  cases hb

theorem fresh_openArgument (a : Attributes) (c : Coordinates) :
    Frame.Fresh (.argument (openArgument a c).1) :=
  ⟨rfl, rfl⟩

theorem Reading.Fresh.opened (h : r.Fresh) (a : Attributes) :
    (r.opened a).1.Fresh := by
  unfold Reading.opened
  dsimp only
  split
  next => exact h.push (fresh_openProtocol a _) _
  next => exact h.push (by exact trivial) _
  next =>
    split
    next => exact h.push (by exact trivial) _
    next => exact h.push (by exact trivial) _
  next => exact h.push (fresh_openInterface a _) _
  next kind _ => exact h.push (fresh_openMessage kind a _) _
  next => exact h.push (fresh_openArgument a _) _
  next => exact h.push (by exact trivial) _
  next => exact h.push (by exact trivial) _
  next => exact h.push (by exact trivial) _
  next => exact h.push (by exact trivial) _
  next => exact h.push (by exact trivial) _

theorem Reading.Fresh.step (h : r.Fresh) (span : Span) (e : Markup.Event) :
    (r.step span e).1.Fresh := by
  cases e with
  | opened name attributes => exact h.opened _
  | closed name => exact h.close
  | text data => exact h.text data
  | other => exact h

theorem Reading.Fresh.run {r' : Reading} (h : r.Fresh) {file : UInt32}
    {limit : Int}
    {ending : Markup.Ending} {last : Nat} {span : Span} {start : Nat}
    {events : List Markup.Located}
    (hrun : (Reading.run file limit ending last r span start events).1 =
      some r') :
    r'.Fresh := by
  induction events generalizing r span start with
  | nil =>
    unfold Reading.run at hrun
    split at hrun
    next => cases hrun
    next =>
      cases ending with
      | complete =>
        cases hrun
        exact h
      | failed fault line => cases hrun
  | cons e es ih =>
    rw [Reading.run] at hrun
    split at hrun
    next => cases hrun
    next => exact ih (h.step _ e.event) hrun

/-- A document that was just read gives no reference a meaning. -/
theorem fresh_of_read_eq_some
    {limit : Int} {f : Source.File} {d : Document}
    (h : (read limit f).1 = some d) :
    ∃ p, d.protocol = some p ∧ p.Fresh := by
  rw [read_eq_stackRead, stackRead] at h
  split at h
  next => cases h
  next =>
    dsimp only at h
    split at h
    next => cases h
    next r hrun =>
      split at h
      next => cases h
      next p hp =>
        cases h
        have hstart : Reading.Fresh {} := ⟨by simp, by simp⟩
        exact ⟨p, rfl, (hstart.run hrun).protocol p hp⟩

end Document

/-! ## Setting results apart -/

/-- What has been found in the arguments, none of which has a meaning. -/
structure Separation.Fresh (s : Separation) : Prop where
  args : ∀ a ∈ s.args, a.Fresh
  result : ∀ a ∈ s.result, a.Fresh
  generic : s.generic = s.args.find? Argument.isGenericNewId

theorem Separation.Fresh.keep
    {s : Separation} (h : s.Fresh) {a : Argument} (ha : a.Fresh)
    (generic extra : Option Argument)
    (hgeneric : generic = (s.args ++ [a]).find? Argument.isGenericNewId) :
    Separation.Fresh { s with args := s.args ++ [a], generic, extra } := by
  refine ⟨?_, h.result, hgeneric⟩
  intro b hb
  rcases List.mem_append.1 hb with hb | hb
  · exact h.args b hb
  · rw [List.mem_singleton.1 hb]
    exact ha

theorem Separation.Fresh.step
    {s : Separation} (h : s.Fresh) {a : Argument × Nat} (ha : a.1.Fresh) :
    (s.step a).Fresh := by
  unfold Separation.step
  by_cases hgeneric : a.1.isGenericNewId = true
  · rw [if_pos hgeneric]
    refine h.keep ha _ _ ?_
    rw [h.generic, List.find?_append, List.find?_singleton, if_pos hgeneric]
  · have hsame : s.generic =
        (s.args ++ [a.1]).find? Argument.isGenericNewId := by
      rw [h.generic, List.find?_append, List.find?_singleton, if_neg hgeneric,
        Option.or_none]
    rw [if_neg hgeneric]
    split
    next =>
      split
      next =>
        refine ⟨h.args, ?_, h.generic⟩
        intro b hb
        cases hb
        exact ha
      next => exact h.keep ha _ _ hsame
    next => exact h.keep ha _ _ hsame

theorem Message.Fresh.separate (h : m.Fresh) :
    m.separate.Fresh := by
  unfold Message.separate
  rw [h.result, h.generic]
  refine List.foldlRecOn (motive := Separation.Fresh)
    _ _ ⟨by simp, by simp, rfl⟩ ?_
  intro s hs a ha
  exact hs.step (h.args a.1 (List.fst_mem_of_mem_zipIdx ha))

theorem Message.forall_mem_wireArgs {P : Argument → Prop}
    (hresult : ∀ a ∈ m.result, P a) (hargs : ∀ a ∈ m.args, P a) :
    ∀ a ∈ m.wireArgs, P a := by
  intro a ha
  rcases List.mem_append.1 (m.wireArgs_perm.mem_iff.1 ha) with ha | ha
  · exact hresult a (Option.mem_toList.1 ha)
  · exact hargs a ha

theorem Message.Fresh.unresolved (h : m.Fresh) :
    m.Unresolved :=
  ⟨Message.forall_mem_wireArgs (by simp [h.result]) h.args, .inl h.generic⟩

theorem Message.Fresh.unresolved_normalize (h : m.Fresh) :
    m.normalize.Unresolved := by
  have hs := h.separate
  rw [Message.normalize, h.normalized]
  exact ⟨Message.forall_mem_wireArgs hs.result hs.args, .inr hs.generic⟩

/-! ## Validation -/

theorem Validation.exists_of_mem_interfaces
    {protocol : Text} {earlier is : List Interface} {i' : Interface}
    (h : i' ∈ (Validation.interfaces protocol earlier is).2) :
    ∃ i ∈ is, i' = i ∨ i' = i.mapMessages Message.normalize := by
  induction is generalizing earlier with
  | nil => cases h
  | cons i is ih =>
    rw [Validation.interfaces] at h
    split at h
    next =>
      rcases List.mem_cons.1 h with rfl | h
      · exact ⟨i', List.mem_cons_self, .inl rfl⟩
      · obtain ⟨j, hj, heq⟩ := ih h
        exact ⟨j, List.mem_cons_of_mem i hj, heq⟩
    next =>
      rcases List.mem_cons.1 h with rfl | h
      · exact ⟨i, List.mem_cons_self, .inr rfl⟩
      · obtain ⟨j, hj, heq⟩ := ih h
        exact ⟨j, List.mem_cons_of_mem i hj, heq⟩

/-- Validation gives no reference a meaning. -/
theorem Document.unresolved_validate
    {d : Document} {p : Protocol} (hp : d.protocol = some p)
    (hfresh : p.Fresh) :
    ∃ q, d.validate.document.protocol = some q ∧
      ∀ m ∈ q.walk, m.Unresolved := by
  refine ⟨(Validation.protocol
    p).2, by rw [Document.validate_of_protocol hp], ?_⟩
  intro m hm
  obtain ⟨i', hi', hm⟩ := List.mem_flatMap.1 hm
  obtain ⟨i, hi, rfl | rfl⟩ := Validation.exists_of_mem_interfaces hi'
  · exact (hfresh i' hi m hm).unresolved
  · rw [Interface.messages_mapMessages, List.mem_map] at hm
    obtain ⟨n, hn, rfl⟩ := hm
    exact (hfresh i hi n hn).unresolved_normalize

/-! ## Arguments -/

theorem Protocol.map_argument_sites (p : Protocol) :
    p.sites.map Site.argument = p.walk.flatMap Message.wireArgs := by
  simp [Protocol.sites, Protocol.messages, Protocol.walk, List.map_flatMap,
    List.flatMap_assoc, List.flatMap_map, Function.comp_def]

theorem Protocol.map_argument_sites_unplaced (p : Protocol) :
    p.unplaced.sites.map Site.argument = p.sites.map Site.argument := by
  have hwalk : p.unplaced.walk = p.walk.map Message.unplaced :=
    p.walk_mapMessages Message.unplaced
  rw [Protocol.map_argument_sites, Protocol.map_argument_sites, hwalk,
    List.flatMap_map]
  rfl

theorem Document.unresolved_of_walk
    {d : Document} {p : Protocol} (hp : d.protocol = some p)
    (h : ∀ m ∈ p.walk, m.Unresolved) :
    d.Unresolved := by
  intro s hs
  rw [Document.sites, hp] at hs
  have hs : s.argument ∈ p.walk.flatMap Message.wireArgs := by
    rw [← Protocol.map_argument_sites]
    exact List.mem_map_of_mem hs
  obtain ⟨m, hm, ha⟩ := List.mem_flatMap.1 hs
  exact (h m hm).wire _ ha

end ProtocolCorpus
