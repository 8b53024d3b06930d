import Mathlib.Data.List.Induction
import ProtocolCorpus.Timing.Timer

/-!
# What counts toward the total time

A timer keeps of each phase only sums and a count. The ledger of the same calls
keeps everything: how each phase was made and every time that was put down for
it. The timer is a summary of the ledger, so its total can be read off the
ledger: the time of the phases that were begun, and of those that were observed
only once.
-/

namespace ProtocolCorpus

namespace Timing

/-! ## Calls and their ledger -/

/-- A call on a timer. The time that the end of a phase measures is given with
it. -/
inductive Call
  | start (name : Text)
  | finish (index : Nat) (elapsed : Int64) (note : Text)
  | observe (name : Text) (elapsed : Int64)

namespace Timer

def perform (t : Timer) : Call → Timer
  | .start name => (t.start name).1
  | .finish index elapsed note => t.finish index elapsed note
  | .observe name elapsed => t.observe name elapsed

def run (calls : List Call) : Timer :=
  calls.foldl perform {}

end Timer

/-- A time that is put down for a phase. -/
inductive Mark
  | ended (elapsed : Int64) (note : Text)
  | observed (elapsed : Int64)

namespace Mark

def ended? : Mark → Option Int64
  | .ended elapsed _ => some elapsed
  | .observed _ => none

def observed? : Mark → Option Int64
  | .ended _ _ => none
  | .observed elapsed => some elapsed

end Mark

def Phase.put (p : Phase) : Mark → Phase
  | .ended elapsed note =>
  { p with
    elapsed, longest := max p.longest elapsed, count := p.count + 1, note }
  | .observed elapsed =>
    { p with
      elapsed := p.elapsed + elapsed, longest := max p.longest elapsed, count :=
        p.count + 1 }

/-- All that is known of a phase. -/
structure Account where
  name : Text
  /-- The phase was begun; otherwise the first observation of its name made it.
  -/
  begun : Bool
  marks : List Mark := []

namespace Account

def put (a : Account) (m : Mark) : Account :=
  { a with marks := a.marks ++ [m] }

def phase (a : Account) : Phase :=
  a.marks.foldl Phase.put { name := a.name }

def ends (a : Account) : List Int64 :=
  a.marks.filterMap Mark.ended?

def observations (a : Account) : List Int64 :=
  a.marks.filterMap Mark.observed?

/-- The phase was not begun, was observed once and never ended. -/
def isSingle (a : Account) : Bool :=
  !a.begun && a.ends.length == 0 && a.observations.length == 1

end Account

/-- The accounts of all phases, in the order in which they were made. -/
abbrev Ledger := List Account

namespace Ledger

def latest? (l : Ledger) (name : Text) : Option Nat :=
  (l.reverse.findIdx? fun a => a.name == name).map fun i => l.length - 1 - i

def enter (l : Ledger) : Call → Ledger
  | .start name => l ++ [{ name, begun := true }]
  | .finish index elapsed note => l.modify index (·.put (.ended elapsed note))
  | .observe name elapsed =>
    match l.latest? name with
    | some i => l.modify i (·.put (.observed elapsed))
    | none => l ++ [{ name, begun := false, marks := [.observed elapsed] }]

def ofCalls (calls : List Call) : Ledger :=
  calls.foldl enter []

/-- The time of all phases that were begun: what their ends measured. -/
def begunTime (l : Ledger) : Int64 :=
  ((l.filter (·.begun)).map fun a => a.ends.sum).sum

/-- The time of all phases that were observed only once. -/
def singleTime (l : Ledger) : Int64 :=
  ((l.filter (·.isSingle)).map fun a => a.observations.sum).sum

end Ledger

/-! ## The timer is a summary of the ledger -/

namespace Account

theorem phase_put (a : Account) (m : Mark) :
    (a.put m).phase = a.phase.put m :=
  List.foldl_append

theorem name_foldl_put (p : Phase) (ms : List Mark) :
    (ms.foldl Phase.put p).name = p.name := by
  induction ms generalizing p with
  | nil => rfl
  | cons m ms ih =>
    rw [List.foldl_cons, ih]
    cases m with
    | ended elapsed note => rfl
    | observed elapsed => rfl

theorem name_phase (a : Account) :
    a.phase.name = a.name :=
  name_foldl_put _ _

theorem count_foldl_put (p : Phase) (ms : List Mark) :
    (ms.foldl Phase.put p).count = p.count + ms.length := by
  induction ms generalizing p with
  | nil => rfl
  | cons m ms ih =>
    have hone : (p.put m).count = p.count + 1 := by
      cases m with
      | ended elapsed note => rfl
      | observed elapsed => rfl
    rw [List.foldl_cons, ih, hone, List.length_cons]
    omega

theorem count_phase (a : Account) :
    a.phase.count = a.marks.length := by
  rw [phase, count_foldl_put]
  exact Nat.zero_add _

theorem length_marks (a : Account) :
    a.marks.length = a.ends.length + a.observations.length := by
  rw [ends, observations]
  induction a.marks with
  | nil => rfl
  | cons m ms ih =>
    cases m with
    | ended elapsed note =>
      simp only [List.filterMap_cons, Mark.ended?, Mark.observed?,
        List.length_cons, ih]
      omega
    | observed elapsed =>
      simp only [List.filterMap_cons, Mark.ended?, Mark.observed?,
        List.length_cons, ih]
      omega

end Account

theorem modify_concat_length {α : Type} (l : List α) (a : α) (f : α → α) :
    (l ++ [a]).modify l.length f = l ++ [f a] := by
  induction l with
  | nil => rfl
  | cons b l ih => exact congrArg (b :: ·) ih

theorem map_phase_modify (l : Ledger) (i : Nat) (m : Mark) :
    (l.modify i (·.put m)).map Account.phase = (l.map Account.phase).modify i
    (·.put m) := by
  apply List.ext_getElem?
  intro k
  rw [List.getElem?_map, List.getElem?_modify, List.getElem?_modify,
    List.getElem?_map]
  cases l[k]? with
  | none => rfl
  | some a =>
    by_cases hk : i = k
    · simp [hk, Account.phase_put]
    · simp [hk]

theorem latest?_eq
    {t : Timer} {l : Ledger} (h : t.phases.toList = l.map Account.phase)
    (name : Text) :
    t.latest? name = l.latest? name := by
  have hsize : t.phases.size = l.length := by
    rw [← Array.length_toList, h, List.length_map]
  have hname : (fun p : Phase => p.name == name) ∘ Account.phase = fun a =>
      a.name == name := by
    funext a
    exact congrArg (· == name) a.name_phase
  rw [Timer.latest?, Ledger.latest?, h, hsize, ← List.map_reverse,
    List.findIdx?_map, hname]

theorem phases_perform
    {t : Timer} {l : Ledger} (h : t.phases.toList = l.map Account.phase)
    (call : Call) :
    (t.perform call).phases.toList = (l.enter call).map Account.phase := by
  cases call with
  | start name =>
    rw [Timer.perform, Timer.start, Array.toList_push, h, Ledger.enter,
      List.map_append]
    rfl
  | finish index elapsed note =>
    rw [Timer.perform, Timer.finish, Array.toList_modify, h, Ledger.enter,
      map_phase_modify]
    rfl
  | observe name elapsed =>
    rw [Timer.perform, Timer.observe, latest?_eq h, Ledger.enter]
    cases l.latest? name with
    | some i =>
      dsimp only
      rw [Array.toList_modify, h, map_phase_modify]
      rfl
    | none =>
      -- The phase is made without a mark and gets its first one at once.
      dsimp only [Timer.start]
      rw [Array.toList_modify, Array.toList_push, ← Array.length_toList,
        modify_concat_length, h, List.map_append]
      rfl

theorem phases_run (calls : List Call) :
    (Timer.run calls).phases.toList =
    (Ledger.ofCalls calls).map Account.phase := by
  suffices hrun : ∀ (t : Timer) (l : Ledger), t.phases.toList =
      l.map Account.phase →
      (calls.foldl Timer.perform t).phases.toList =
      (calls.foldl Ledger.enter l).map Account.phase from
    hrun {} [] rfl
  intro t l h
  induction calls generalizing t l with
  | nil => exact h
  | cons call calls ih => exact ih _ _ (phases_perform h call)

/-- The total sums up the phases with one mark or none. -/
theorem total_run (calls : List Call) :
    (Timer.run calls).total =
      (((Ledger.ofCalls calls).filter fun a => a.marks.length ≤ 1).map fun a =>
      a.phase.elapsed).sum := by
  have hcount : (fun p : Phase => decide (p.count ≤ 1)) ∘ Account.phase =
      fun a => decide (a.marks.length ≤ 1) := by
    funext a
    exact congrArg (fun n => decide (n ≤ 1)) a.count_phase
  rw [Timer.total, phases_run, List.filter_map, hcount, List.foldl_map,
    List.sum_eq_foldl, List.foldl_map]

/-! ## What the calls tell of an account -/

namespace Call

def begun? : Call → Option Text
  | .start name => some name
  | .finish _ _ _ => none
  | .observe _ _ => none

def observed? : Call → Option Text
  | .start _ => none
  | .finish _ _ _ => none
  | .observe name _ => some name

end Call

def begunNames (calls : List Call) : List Text :=
  calls.filterMap Call.begun?

def observedNames (calls : List Call) : List Text :=
  calls.filterMap Call.observed?

theorem begunNames_append (calls more : List Call) :
    begunNames (calls ++ more) = begunNames calls ++ begunNames more :=
  List.filterMap_append

theorem observedNames_append (calls more : List Call) :
    observedNames (calls ++ more) = observedNames calls ++ observedNames more :=
  List.filterMap_append

/-- The account of a phase that was begun has a begun name, one with
observations has an observed name, and an account is opened by one or the other.
-/
structure Account.Traced (calls : List Call) (a : Account) : Prop where
  begun : a.begun = true → a.name ∈ begunNames calls
  observed : a.observations ≠ [] → a.name ∈ observedNames calls
  opened : a.begun = false → a.observations ≠ []

namespace Account

theorem Traced.append
    {calls : List Call} {a : Account} (h : Traced calls a) (more : List Call) :
    Traced (calls ++ more) a := by
  constructor
  case begun =>
    intro hbegun
    rw [begunNames_append]
    exact List.mem_append_left _ (h.begun hbegun)
  case observed =>
    intro hobserved
    rw [observedNames_append]
    exact List.mem_append_left _ (h.observed hobserved)
  case opened => exact h.opened

theorem Traced.put_ended
    {calls : List Call} {a : Account} (h : Traced calls a) (elapsed : Int64)
    (note : Text) :
    Traced calls (a.put (.ended elapsed note)) := by
  have hsame : (a.put (.ended elapsed note)).observations = a.observations := by
    rw [observations, put, List.filterMap_append]
    exact List.append_nil _
  exact ⟨h.begun, fun hne => h.observed (hsame ▸ hne), fun hmade =>
    hsame ▸ h.opened hmade⟩

theorem Traced.put_observed
    {calls : List Call} {a : Account} (h : Traced calls a)
    (hname : a.name ∈ observedNames calls) (elapsed : Int64) :
    Traced calls (a.put (.observed elapsed)) := by
  have hmore : (a.put (.observed elapsed)).observations =
      a.observations ++ [elapsed] := by
    rw [observations, put, List.filterMap_append]
    rfl
  exact ⟨h.begun, fun _ => hname, fun _ =>
    hmore ▸ List.append_ne_nil_of_right_ne_nil _ (by simp)⟩

end Account

namespace Ledger

theorem forall_mem_modify
    {P : Account → Prop} {l : Ledger} (h : ∀ a ∈ l, P a) {i : Nat}
    {f : Account → Account} (hf : ∀ a, l[i]? = some a → P (f a)) :
    ∀ a ∈ l.modify i f, P a := by
  intro b hb
  obtain ⟨k, hk⟩ := List.mem_iff_getElem?.1 hb
  rw [List.getElem?_modify] at hk
  obtain ⟨a, ha, rfl⟩ := Option.map_eq_some_iff.1 hk
  split
  next hik => exact hf a (hik ▸ ha)
  next => exact h a (List.mem_of_getElem? ha)

theorem name_of_latest?
    {l : Ledger} {name : Text} {i : Nat} (h : l.latest? name = some i)
    {a : Account} (ha : l[i]? = some a) :
    a.name = name := by
  obtain ⟨j, hj, rfl⟩ := Option.map_eq_some_iff.1 h
  obtain ⟨hlt, hname, -⟩ := List.findIdx?_eq_some_iff_getElem.1 hj
  rw [List.length_reverse] at hlt
  rw [← List.getElem?_reverse hlt] at ha
  obtain ⟨_, rfl⟩ := List.getElem?_eq_some_iff.1 ha
  exact beq_iff_eq.1 hname

theorem traced_enter
    {calls : List Call} {l : Ledger} (h : ∀ a ∈ l, a.Traced calls)
    (call : Call) :
    ∀ a ∈ l.enter call, a.Traced (calls ++ [call]) := by
  have hold : ∀ a ∈ l, a.Traced (calls ++ [call]) := fun a ha =>
    (h a ha).append [call]
  cases call with
  | start name =>
    have hname : name ∈ begunNames (calls ++ [.start name]) := by
      rw [begunNames_append]
      exact List.mem_append_right _ List.mem_cons_self
    intro a ha
    rcases List.mem_append.1 ha with ha | ha
    · exact hold a ha
    · rw [List.mem_singleton.1 ha]
      exact ⟨fun _ => hname, fun hne => absurd rfl hne, fun hmade =>
        (by cases hmade)⟩
  | finish index elapsed note =>
    apply forall_mem_modify hold
    intro a ha
    exact (hold a (List.mem_of_getElem? ha)).put_ended elapsed note
  | observe name elapsed =>
    have hname : name ∈ observedNames (calls ++ [.observe name elapsed]) := by
      rw [observedNames_append]
      exact List.mem_append_right _ List.mem_cons_self
    dsimp only [enter]
    split
    next i hlatest =>
      apply forall_mem_modify hold
      intro a ha
      exact (hold a (List.mem_of_getElem? ha)).put_observed
        (name_of_latest? hlatest ha ▸ hname) elapsed
    next =>
      intro a ha
      rcases List.mem_append.1 ha with ha | ha
      · exact hold a ha
      · rw [List.mem_singleton.1 ha]
        exact ⟨fun hbegun => (by cases hbegun), fun _ => hname, fun _ =>
          List.cons_ne_nil _ _⟩

theorem traced_ofCalls (calls : List Call) :
    ∀ a ∈ ofCalls calls, a.Traced calls := by
  induction calls using List.reverseRecOn with
  | nil => simp [ofCalls]
  | append_singleton calls call ih =>
    rw [ofCalls, List.foldl_append]
    exact traced_enter ih call

end Ledger

/-! ## The total -/

namespace Account

/-- A phase that was begun is never observed and ends once at most; any other is
observed. -/
structure Regular (a : Account) : Prop where
  unobserved : a.begun = true → a.observations = []
  ends_le : a.begun = true → a.ends.length ≤ 1
  observed : a.begun = false → a.observations ≠ []

/-- A phase with one mark or none took the time of that mark. -/
theorem elapsed_phase
    {a : Account} (h : a.marks.length ≤ 1) :
    a.phase.elapsed = a.ends.sum + a.observations.sum := by
  obtain ⟨name, begun, marks⟩ := a
  match marks with
  | [] => rfl
  | [.ended elapsed note] =>
    show elapsed = elapsed + 0 + 0
    rw [Int64.add_zero, Int64.add_zero]
  | [.observed elapsed] =>
    show 0 + elapsed = 0 + (elapsed + 0)
    rw [Int64.add_zero]
  | _ :: _ :: _ => simp at h

theorem Regular.length_marks_le_one_iff
    {a : Account} (h : Regular a) :
    a.marks.length ≤ 1 ↔ a.begun = true ∨ a.isSingle = true := by
  have hlength := a.length_marks
  cases hbegun : a.begun with
  | true =>
    have hends := h.ends_le hbegun
    rw [h.unobserved hbegun, List.length_nil] at hlength
    exact ⟨fun _ => .inl rfl, fun _ => by omega⟩
  | false =>
    have hobserved := List.length_pos_iff.2 (h.observed hbegun)
    simp only [isSingle, hbegun, Bool.not_false, Bool.true_and,
      Bool.and_eq_true, beq_iff_eq, Bool.false_eq_true, false_or]
    omega

theorem Regular.elapsed_of_begun
    {a : Account} (h : Regular a) (hbegun : a.begun = true) :
    a.phase.elapsed = a.ends.sum := by
  rw [elapsed_phase (h.length_marks_le_one_iff.2 (.inl hbegun)),
    h.unobserved hbegun]
  exact Int64.add_zero _

theorem Regular.elapsed_of_isSingle
    {a : Account} (h : Regular a) (hsingle : a.isSingle = true) :
    a.phase.elapsed = a.observations.sum := by
  have hends : a.ends = [] := by
    simp only [isSingle, Bool.and_eq_true, beq_iff_eq] at hsingle
    exact List.length_eq_zero_iff.1 hsingle.1.2
  rw [elapsed_phase (h.length_marks_le_one_iff.2 (.inr hsingle)), hends]
  exact Int64.zero_add _

end Account

theorem Ledger.sum_eq_begunTime_add_singleTime
    {l : Ledger} (h : ∀ a ∈ l, a.Regular) :
    ((l.filter fun a => a.marks.length ≤ 1).map fun a => a.phase.elapsed).sum =
      l.begunTime + l.singleTime := by
  induction l with
  | nil => rfl
  | cons a l ih =>
    rw [List.forall_mem_cons] at h
    have hmarks := h.1.length_marks_le_one_iff
    have hrest := ih h.2
    simp only [begunTime, singleTime] at hrest ⊢
    -- An account is begun, or single, or it has more than one mark and is left
    -- out of all three sums.
    cases hbegun : a.begun with
    | true =>
      have hsingle : a.isSingle = false := by
        rw [Account.isSingle, hbegun]
        rfl
      simp [hmarks, hbegun, hsingle, h.1.elapsed_of_begun hbegun, hrest,
        Int64.add_assoc]
    | false =>
      cases hsingle : a.isSingle with
      | true =>
        simp only [List.filter_cons, hmarks, hbegun, hsingle,
          h.1.elapsed_of_isSingle hsingle, hrest, or_true, decide_true, if_true,
          Bool.false_eq_true, if_false, List.map_cons, List.sum_cons]
        ac_rfl
      | false => simp [hmarks, hbegun, hsingle, hrest]

/-- The total is the time of the phases that were begun exactly if the times of
the phases that were observed once add up to nothing: these count as well. -/
theorem total_eq_begunTime_iff
    {calls : List Call}
    (hnames : ∀ name ∈ begunNames calls, name ∉ observedNames calls)
    (hended : ∀ a ∈ Ledger.ofCalls calls, a.begun = true → a.ends.length ≤ 1) :
    (Timer.run calls).total = (Ledger.ofCalls calls).begunTime +
      (Ledger.ofCalls calls).singleTime ∧
      ((Timer.run calls).total = (Ledger.ofCalls calls).begunTime ↔
        (Ledger.ofCalls calls).singleTime = 0) := by
  have hregular : ∀ a ∈ Ledger.ofCalls calls, a.Regular := by
    intro a ha
    have htraced := Ledger.traced_ofCalls calls a ha
    refine ⟨?_, hended a ha, htraced.opened⟩
    intro hbegun
    by_contra hne
    exact hnames a.name (htraced.begun hbegun) (htraced.observed hne)
  have htotal :=
    (total_run calls).trans (Ledger.sum_eq_begunTime_add_singleTime hregular)
  refine ⟨htotal, ?_⟩
  rw [htotal]
  exact Int64.add_eq_left

/-- Two workers observe their share of a phase that takes five units. -/
def twoWorkers : List Call :=
  [.start "resolve", .observe "resolve.document" 3,
    .observe "resolve.document" 4, .finish 0 5 "2 documents"]

/-- The seven units of the two workers do not count. -/
theorem twoWorkers_total :
    (∀ name ∈ begunNames twoWorkers, name ∉ observedNames twoWorkers) ∧
      (∀ a ∈ Ledger.ofCalls twoWorkers, a.begun = true → a.ends.length ≤ 1) ∧
      (Timer.run twoWorkers).total = (Ledger.ofCalls twoWorkers).begunTime ∧
      (Ledger.ofCalls twoWorkers).begunTime = 5 := by
  have hnames : ∀ name ∈ begunNames twoWorkers,
    name ∉ observedNames twoWorkers := by decide
  have hended : ∀ a ∈ Ledger.ofCalls twoWorkers, a.begun = true →
    a.ends.length ≤ 1 := by decide
  exact ⟨hnames, hended, (total_eq_begunTime_iff hnames hended).2.2
    (by decide), by decide⟩

/-- One worker alone observes its share of a phase. -/
def oneWorker : List Call :=
  [.start "resolve", .observe "resolve.document" 1500000]

/-- What the only worker observed counts toward the total, beside the phase it
worked for. -/
theorem oneWorker_counts :
    (∀ name ∈ begunNames oneWorker, name ∉ observedNames oneWorker) ∧
      (∀ a ∈ Ledger.ofCalls oneWorker, a.begun = true → a.ends.length ≤ 1) ∧
      (Timer.run oneWorker).total = 1500000 ∧
      (Ledger.ofCalls oneWorker).begunTime = 0 := by
  decide

end Timing

end ProtocolCorpus
