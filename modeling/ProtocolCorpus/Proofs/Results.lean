import Mathlib.Data.List.Induction
import ProtocolCorpus.Proofs.Sites
import ProtocolCorpus.Protocol.Normal

/-!
# Setting results apart

One pass over the arguments of a message takes out its result and remembers
where it stood. What the pass has found at any time can be read off the row of
arguments it has seen. So nothing is lost and nothing changes places: with the
result put back where it stood, the row is the one that was declared.
-/

namespace ProtocolCorpus

/-! ## The pass over the arguments -/

namespace Argument

/-- Where the first object of a declared interface is created among the
arguments; negative if nowhere. -/
def resultPlace (args : List Argument) : Int :=
  match args.findIdx? isTypedNewId with
  | some i => i
  | none => -1

theorem isTypedNewId_eq_false_of_generic
    {a : Argument} (h : a.isGenericNewId = true) :
    a.isTypedNewId = false := by
  simp only [isGenericNewId, isTypedNewId, Bool.and_eq_true] at h ⊢
  rw [h.2, Bool.not_true, Bool.and_false]

theorem isGenericNewId_eq_false_of_typed
    {a : Argument} (h : a.isTypedNewId = true) :
    a.isGenericNewId = false := by
  simp only [isGenericNewId, isTypedNewId, Bool.and_eq_true, Bool.not_eq_true']
    at h ⊢
  rw [h.2, Bool.and_false]

theorem resultPlace_of_split
    {before after : List Argument} {r : Argument}
    (hbefore : ∀ a ∈ before, a.isTypedNewId = false)
    (hr : r.isTypedNewId = true) :
    resultPlace (before ++ r :: after) = before.length := by
  have hnone : before.findIdx? isTypedNewId = none :=
    List.findIdx?_eq_none_iff.2 hbefore
  rw [resultPlace, List.findIdx?_append, hnone, Option.none_or,
    List.findIdx?_cons, if_pos hr]
  simp

theorem filter_eraseP_isTypedNewId (args : List Argument) :
    (args.eraseP isTypedNewId).filter isTypedNewId =
    (args.filter isTypedNewId).tail := by
  induction args with
  | nil => rfl
  | cons a args ih =>
    by_cases ha : a.isTypedNewId = true
    · rw [List.eraseP_cons_of_pos ha, List.filter_cons_of_pos ha,
        List.tail_cons]
    · rw [List.eraseP_cons_of_neg ha, List.filter_cons_of_neg ha,
        List.filter_cons_of_neg ha, ih]

end Argument

namespace Separation

/-- What was found is what the arguments seen so far hold, and a generic one
that was known before. -/
structure Describes (known : Option Argument) (s : Separation)
    (seen : List Argument) : Prop where
  args : s.args = seen.eraseP Argument.isTypedNewId
  result : s.result = seen.find? Argument.isTypedNewId
  resultIndex : s.resultIndex = Argument.resultPlace seen
  generic : s.generic = known.or (seen.find? Argument.isGenericNewId)
  extra : s.extra = (seen.filter Argument.isTypedNewId)[1]?

section Step

variable {known : Option Argument} {s : Separation} {seen : List Argument}
  {a : Argument}

/-- An argument that cannot be the result stays in the row. -/
theorem Describes.keep
    (h : s.Describes known seen) (ha : a.isTypedNewId = false)
    {generic : Option Argument}
    (hgeneric : generic =
      known.or ((seen ++ [a]).find? Argument.isGenericNewId)) :
    Describes known { s with
        args := s.args ++ [a], generic } (seen ++ [a]) := by
  constructor
  case args =>
    rw [h.args, List.eraseP_append]
    split
    next => rfl
    next hnone =>
      have hseen : seen.eraseP Argument.isTypedNewId = seen :=
        List.eraseP_of_forall_not (by simpa using hnone)
      have hlast : [a].eraseP Argument.isTypedNewId = [a] :=
        List.eraseP_of_forall_not (by simpa using ha)
      rw [hseen, hlast]
  case result => simp [h.result, List.find?_append, ha]
  case resultIndex =>
    rw [h.resultIndex, Argument.resultPlace, Argument.resultPlace,
      List.findIdx?_append, List.findIdx?_singleton, ha]
    simp
  case generic => exact hgeneric
  case extra => simp [h.extra, ha]

/-- The first argument that can be the result is taken out. -/
theorem Describes.takeOut
    (h : s.Describes known seen) (ha : a.isTypedNewId = true)
    (hresult : s.result = none) :
    Describes known { s with
        result := some a, resultIndex := seen.length } (seen ++ [a]) := by
  have hnone : ∀ b ∈ seen, ¬b.isTypedNewId = true :=
    List.find?_eq_none.1 (h.result.symm.trans hresult)
  have hgeneric : a.isGenericNewId = false :=
    Argument.isGenericNewId_eq_false_of_typed ha
  constructor
  case args =>
    rw [h.args, List.eraseP_of_forall_not hnone,
      List.eraseP_append_right _ hnone, List.eraseP_cons_of_pos ha,
      List.append_nil]
  case result =>
    rw [List.find?_append, ← h.result, hresult, List.find?_singleton, if_pos ha]
    rfl
  case resultIndex =>
    exact (Argument.resultPlace_of_split
      (fun b hb => by simpa using hnone b hb) ha).symm
  case generic => simp [h.generic, List.find?_append, hgeneric]
  case extra =>
    have hfilter : seen.filter Argument.isTypedNewId = [] :=
      List.filter_eq_nil_iff.2 hnone
    rw [h.extra, List.filter_append, hfilter]
    simp [ha]

/-- A further argument that could have been the result stays in the row too. -/
theorem Describes.passOver
    (h : s.Describes known seen) (ha : a.isTypedNewId = true) {r : Argument}
    (hresult : s.result = some r) :
    Describes known { s with
        args := s.args ++ [a], extra := s.extra.or (some a) }
          (seen ++ [a]) := by
  have hfind : seen.find? Argument.isTypedNewId = some r :=
    h.result.symm.trans hresult
  have hr : r ∈ seen := List.mem_of_find?_eq_some hfind
  have htyped : r.isTypedNewId = true := List.find?_some hfind
  have hgeneric : a.isGenericNewId = false :=
    Argument.isGenericNewId_eq_false_of_typed ha
  constructor
  case args => rw [h.args, List.eraseP_append_left htyped _ hr]
  case result => rw [List.find?_append, hfind, Option.some_or, ← hresult]
  case resultIndex =>
    obtain ⟨i, hi⟩ : ∃ i, seen.findIdx? Argument.isTypedNewId = some i := by
      rw [← Option.isSome_iff_exists, List.findIdx?_isSome]
      exact List.any_eq_true.2 ⟨r, hr, htyped⟩
    rw [h.resultIndex, Argument.resultPlace, Argument.resultPlace,
      List.findIdx?_append, hi, Option.some_or]
  case generic => simp [h.generic, List.find?_append, hgeneric]
  case extra =>
    -- The row of candidates is not empty, so a new one is the second of them or
    -- comes later.
    obtain ⟨b, bs, hfilter⟩ := List.exists_cons_of_ne_nil
      (List.ne_nil_of_mem (List.mem_filter.2 ⟨hr, htyped⟩))
    have hlast : [a].filter Argument.isTypedNewId = [a] :=
      List.filter_cons_of_pos ha
    rw [h.extra, List.filter_append, hfilter, hlast]
    cases bs with
    | nil => rfl
    | cons c cs => rfl

theorem Describes.step
    (h : s.Describes known seen) (a : Argument) :
    (s.step (a, seen.length)).Describes known (seen ++ [a]) := by
  have hfind : (seen ++ [a]).find? Argument.isGenericNewId =
      (seen.find? Argument.isGenericNewId).or (if a.isGenericNewId then some a
      else none) := by
    rw [List.find?_append, List.find?_singleton]
  unfold Separation.step
  split
  next hgeneric =>
    refine h.keep (Argument.isTypedNewId_eq_false_of_generic hgeneric) ?_
    rw [h.generic, hfind, if_pos hgeneric, Option.or_assoc]
  next hgeneric =>
    split
    next htyped =>
      split
      next hresult => exact h.takeOut htyped hresult
      next r hresult => exact h.passOver htyped hresult
    next htyped =>
      refine h.keep (by simpa using htyped) ?_
      rw [h.generic, hfind, if_neg hgeneric, Option.or_none]

end Step

theorem describes_foldl (known : Option Argument) (args : List Argument) :
    (args.zipIdx.foldl step { generic := known }).Describes known args := by
  induction args using List.reverseRecOn with
  | nil => exact ⟨rfl, rfl, rfl, Option.or_none.symm, rfl⟩
  | append_singleton seen a ih =>
    rw [List.zipIdx_append, List.foldl_append, Nat.zero_add]
    exact ih.step a

/-- The arguments that the pass has met, wherever they are kept. -/
def met (s : Separation) : List Argument :=
  s.result.toList ++ s.args

theorem met_step_perm (s : Separation) (a : Argument × Nat) :
    (s.step a).met.Perm (s.met ++ [a.1]) := by
  have hkept : (s.result.toList ++ (s.args ++ [a.1])).Perm
      (s.met ++ [a.1]) := by
    rw [met, List.append_assoc]
  unfold step
  split
  next => exact hkept
  next =>
    split
    next =>
      split
      next hresult =>
        rw [met, met, hresult, Option.toList_some, Option.toList_none,
          List.nil_append]
        exact (List.perm_append_singleton a.1 s.args).symm
      next => exact hkept
    next => exact hkept

theorem met_foldl_perm (s : Separation) (as : List (Argument × Nat)) :
    (as.foldl step s).met.Perm (s.met ++ as.map Prod.fst) := by
  induction as generalizing s with
  | nil => rw [List.map_nil, List.append_nil, List.foldl_nil]
  | cons a as ih =>
    rw [List.foldl_cons, List.map_cons, List.append_cons]
    exact (ih (s.step a)).trans ((s.met_step_perm a).append_right _)

end Separation

/-! ## Messages -/

namespace Message

variable {m : Message}

theorem describes_separate (hresult : m.result = none) :
    m.separate.Describes m.generic m.args := by
  rw [separate, hresult]
  exact Separation.describes_foldl m.generic m.args

/-- The second argument that could be the result is left over. -/
theorem surplus_eq (hresult : m.result = none)
    (hnormalized : m.normalized = false) :
    m.surplus = (m.args.filter Argument.isTypedNewId)[1]? := by
  rw [surplus, hnormalized]
  exact (describes_separate hresult).extra

theorem normalize_eq (hresult : m.result = none)
    (hnormalized : m.normalized = false) :
    m.normalize = { m with
      args := m.args.eraseP Argument.isTypedNewId
      result := m.args.find? Argument.isTypedNewId
      resultIndex := Argument.resultPlace m.args
      generic := m.generic.or (m.args.find? Argument.isGenericNewId)
      normalized := true } := by
  have h := describes_separate hresult
  rw [normalize, hnormalized, ← h.args, ← h.result, ← h.resultIndex,
    ← h.generic]
  rfl

theorem normalize_of_normalized (h : m.normalized = true) :
    m.normalize = m := by
  rw [normalize, if_pos h]

/-- Every argument is still sent, whether or not a result was known before. -/
theorem wireArgs_normalize_perm (m : Message) :
    m.normalize.wireArgs.Perm m.wireArgs := by
  unfold normalize
  split
  next => exact List.Perm.refl _
  next =>
    refine (wireArgs_perm _).trans (List.Perm.trans ?_ m.wireArgs_perm.symm)
    have hmet :=
      Separation.met_foldl_perm { result := m.result, generic := m.generic }
        m.args.zipIdx
    rwa [List.zipIdx_map_fst, Separation.met, Separation.met, List.append_nil]
      at hmet

/-- With the result put back where it stood, the row of arguments is as it was.
-/
theorem wireArgs_of_apart
    {n : Message} {args : List Argument}
    (hargs : n.args = args.eraseP Argument.isTypedNewId)
    (hresult : n.result = args.find? Argument.isTypedNewId)
    (hindex : n.resultIndex = Argument.resultPlace args) :
    n.wireArgs = args := by
  cases hfind : args.find? Argument.isTypedNewId with
  | none =>
    rw [wireArgs, hresult, hfind, hargs]
    exact List.eraseP_of_forall_not (List.find?_eq_none.1 hfind)
  | some r =>
    obtain ⟨hr, before, after, rfl, hbefore⟩ :=
      List.find?_eq_some_iff_append.1 hfind
    have hbefore : ∀ a ∈ before, a.isTypedNewId = false := by
      simpa using hbefore
    have hrest : n.args = before ++ after := by
      rw [hargs, List.eraseP_append_right _ (by simpa using hbefore),
        List.eraseP_cons_of_pos hr]
    have hplace : n.resultIndex = before.length := by
      rw [hindex, Argument.resultPlace_of_split hbefore hr]
    have hinside :
        ¬(n.resultIndex < 0 ∨ (n.args.length : Int) < n.resultIndex) := by
      rw [hplace, hrest, List.length_append]
      omega
    rw [wireArgs, hresult, hfind]
    dsimp only
    rw [if_neg hinside, hplace, hrest, Int.toNat_natCast, List.take_left,
      List.drop_left]

theorem slotCount_eq_length_wireArgs (m : Message) :
    m.slotCount = m.wireArgs.length := by
  rw [m.wireArgs_perm.length_eq, slotCount, List.length_append, Nat.add_comm]
  cases m.result with
  | none => rfl
  | some r => rfl

/-- What has become of a message when its result was set apart and an argument
was left over. -/
structure SetApart (m n : Message) (extra : Option Argument) : Prop where
  /-- Put back where it stood, the result completes the row of arguments. -/
  wireArgs : n.wireArgs = m.args
  args : n.args = m.args.eraseP Argument.isTypedNewId
  result : n.result = m.args.find? Argument.isTypedNewId
  resultIndex : n.resultIndex = Argument.resultPlace m.args
  generic : n.generic = m.args.find? Argument.isGenericNewId
  generic_mem : ∀ a ∈ n.generic, a ∈ n.args
  /-- The second argument that could be the result. -/
  extra_eq : extra = (m.args.filter Argument.isTypedNewId)[1]?
  extra_mem : ∀ a ∈ extra, a ∈ n.args
  slotCount : n.slotCount = m.args.length
  /-- Nothing else has changed. -/
  frame : { n with
    args := m.args
    result := m.result
    resultIndex := m.resultIndex
    generic := m.generic
    normalized := m.normalized } = m
  /-- The message is changed only once. -/
  again : n.normalize = n ∧ n.surplus = none

/-- Setting the result of a message apart loses nothing and changes no places.
-/
theorem setApart_normalize
    {m : Message} (hresult : m.result = none) (hgeneric : m.generic = none)
    (hnormalized : m.normalized = false) :
    SetApart m m.normalize m.surplus := by
  have heq := normalize_eq hresult hnormalized
  rw [hgeneric, Option.none_or] at heq
  have hdone : m.normalize.normalized = true := by rw [heq]
  have hargs : m.normalize.args = m.args.eraseP Argument.isTypedNewId := by
    rw [heq]
  have hwire : m.normalize.wireArgs = m.args :=
    wireArgs_of_apart hargs (by rw [heq]) (by rw [heq])
  constructor
  case wireArgs => exact hwire
  case args => exact hargs
  case result => rw [heq]
  case resultIndex => rw [heq]
  case generic => rw [heq]
  case generic_mem =>
    intro a ha
    rw [heq] at ha
    have htyped :=
      Argument.isTypedNewId_eq_false_of_generic (List.find?_some ha)
    rw [hargs, List.mem_eraseP_of_neg (by simp [htyped])]
    exact List.mem_of_find?_eq_some ha
  case extra_eq => exact surplus_eq hresult hnormalized
  case extra_mem =>
    intro a ha
    rw [Option.mem_def, surplus_eq hresult hnormalized, ← List.getElem?_tail,
      ← Argument.filter_eraseP_isTypedNewId, ← hargs] at ha
    exact (List.mem_filter.1 (List.mem_of_getElem? ha)).1
  case slotCount => rw [slotCount_eq_length_wireArgs, hwire]
  case frame => rw [heq]
  case again =>
    refine ⟨normalize_of_normalized hdone, ?_⟩
    rw [surplus, if_pos hdone]

/-- A request with two arguments that could be the result, an object of an
unknown interface before them and another one between them. -/
def attach : Message :=
  let typed (name interface : Text) : Argument :=
    { name, kind := .newId, interface }
  let generic (name : Text) : Argument := { name, kind := .newId }
  { name := "attach"
    args := [generic "any", { name := "x", kind := .int }, typed "id" "surface",
      generic "other",
      typed "id2" "buffer"] }

theorem setApart_attach :
    SetApart attach attach.normalize attach.surplus ∧
      attach.normalize.result.map Argument.name = some "id" ∧
      attach.normalize.resultIndex = 2 ∧
      attach.normalize.generic.map Argument.name = some "any" ∧
      attach.surplus.map Argument.name = some "id2" ∧
      attach.normalize.args.map Argument.name =
      ["any", "x", "other", "id2"].map Text.ofString :=
  ⟨setApart_normalize rfl rfl rfl, by decide +kernel⟩

end Message

end ProtocolCorpus
