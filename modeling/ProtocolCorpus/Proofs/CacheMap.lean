import ProtocolCorpus.Proofs.CacheFiles

/-!
# The cache as a map

Entries are put into a cache, looked for and dropped, one call after the other,
and during each call any of the ways of changing files can fail. Whatever fails,
the cache acts as a map from keys to what is found under them: an entry that was
put replaces what was under its key and nothing else, a call that was refused
puts nothing, and after all entries were dropped there are none.
-/

namespace ProtocolCorpus

namespace Cache

open FileSystem

/-! ## Calls -/

inductive Action
  | put (key : Text) (e : CacheEntry)
  | get (key : Text)
  | drop

def Action.changes : Action → List FileChange
  | .put _ _ => putChanges
  | .get _ => []
  | .drop => [.makeDirectory]

/-- An entry that is put can be read again once it was written. -/
def Action.RoundTrips : Action → Prop
  | .put _ e => CacheEntry.decode? e.encode = some e
  | _ => True

instance (action : Action) : Decidable action.RoundTrips :=
  match action with
  | .put _ e =>
    inferInstanceAs (Decidable (CacheEntry.decode? e.encode = some e))
  | .get _ => .isTrue trivial
  | .drop => .isTrue trivial

/-- One call of a cache, and the changes of files that fail during it. -/
structure Call where
  action : Action
  faults : List FileChange := []

/-- The call makes a change that fails. -/
def Call.MeetsFault (call : Call) : Prop :=
  ∃ change ∈ call.action.changes, change ∈ call.faults

inductive Answer
  | done
  | refused (cause : FileError)
  | found (result : Except CacheError (Option CacheEntry))
  deriving DecidableEq

/-- A change was made unless there is a cause why not. -/
def Answer.ofCause : Option FileError → Answer
  | none => .done
  | some cause => .refused cause

def respond (c : Cache) (fs : FileSystem) (call : Call) : FileSystem × Answer :=
  let fs := { fs with failing := call.faults }
  match call.action with
  | .put key e => ((c.put fs key e).1, .ofCause (c.put fs key e).2)
  | .get key => (fs, .found (c.get fs key))
  | .drop => ((c.drop fs).1, .ofCause (c.drop fs).2)

/-- One call after the other; each is kept with its answer. -/
def run (c : Cache) (fs : FileSystem) : List Call →
    FileSystem × List (Call × Answer)
  | [] => (fs, [])
  | call :: calls =>
    let (fs', answer) := c.respond fs call
    let (last, answers) := c.run fs' calls
    (last, (call, answer) :: answers)

/-! ## The map -/

/-- What is found under each key. -/
abbrev Contents := Text → Except CacheError (Option CacheEntry)

/-- What a map gives back and what it holds afterwards. An entry that was
refused leaves it as it was; that the directory could not be made again after
all entries were dropped does not bring them back. -/
inductive Contents.Step (m : Contents) : Action → Answer → Contents → Prop
  | put (key : Text) (e : CacheEntry) :
  Step m (.put key e) .done (Function.update m key (.ok (some e)))
  | putRefused (key : Text) (e : CacheEntry) (cause : FileError) :
  Step m (.put key e) (.refused cause) m
  | get (key : Text) : Step m (.get key) (.found (m key)) m
  | drop : Step m .drop .done fun _ => .ok none
  | dropRefused (cause : FileError) {m' : Contents}
  (hgone : ∀ key e, m' key ≠ .ok (some e)) :
    Step m .drop (.refused cause) m'

inductive Contents.Runs : Contents → List (Call × Answer) → Contents → Prop
  | nil (m : Contents) : Runs m [] m
  | cons {m m' m'' : Contents} {call : Call} {answer : Answer}
  {rest : List (Call × Answer)}
    (hstep : m.Step call.action answer m') (hrest : Runs m' rest m'') :
    Runs m ((call, answer) :: rest) m''

def contents (c : Cache) (fs : FileSystem) : Contents :=
  c.get fs

theorem contents_of_put
    {c : Cache} {fs fs' : FileSystem} {key : Text} {e : CacheEntry}
    (hreachable : c.Reachable fs) (hreadable : c.Readable fs)
    (hround : CacheEntry.decode? e.encode = some e)
    (h : c.Leaves fs fs'
      (Function.update (c.files fs) key (some (.file e.encode)))) :
    c.contents fs' = Function.update (c.contents fs) key (.ok (some e)) := by
  funext key'
  by_cases hkey : key' = key
  · rw [hkey, Function.update_self]
    apply get_of_file (h.readable hreadable) _ hround
    rw [h.files, Function.update_self]
  · rw [Function.update_of_ne hkey]
    exact h.get_eq hreachable (Function.update_of_ne hkey _ _)

/-- What a call of a cache comes to: a call of the map, after which the cache is
as fit for calls as before. -/
structure Responds (c : Cache) (fs : FileSystem) (call : Call)
    (fs' : FileSystem) (answer : Answer) : Prop where
  step : c.Readable fs → call.action.RoundTrips →
    (c.contents fs).Step call.action answer (c.contents fs')
  readable : c.Readable fs → c.Readable fs'
  reachable : c.Reachable fs → c.Reachable fs'
  refused_iff : c.Reachable fs →
    ((∃ cause, answer = .refused cause) ↔ call.MeetsFault)

theorem refused_iff_of_meetsFault
    {call : Call} (h : call.MeetsFault) (cause : FileError) :
    (∃ error, Answer.refused cause = .refused error) ↔ call.MeetsFault :=
  ⟨fun _ => h, fun _ => ⟨cause, rfl⟩⟩

theorem done_iff_of_not_meetsFault
    {call : Call} (h : ¬call.MeetsFault) :
    (∃ error, Answer.done = .refused error) ↔ call.MeetsFault := by
  refine ⟨?_, fun hfault => absurd hfault h⟩
  rintro ⟨error, hrefused⟩
  cases hrefused

theorem responds_get (c : Cache) (fs : FileSystem) (key : Text)
    (faults : List FileChange) :
    c.Responds fs ⟨.get key, faults⟩ { fs with
        failing := faults } (.found (c.get fs key)) where
  step _ _ := .get key
  readable := id
  reachable := id
  refused_iff _ := by simp [Call.MeetsFault, Action.changes]

theorem responds_put
    (c : Cache) (fs : FileSystem) (key : Text) (e : CacheEntry)
    (faults : List FileChange) :
    c.Responds fs ⟨.put key e, faults⟩ (c.put { fs with
        failing := faults } key e).1
      (.ofCause (c.put { fs with failing := faults } key e).2) := by
  rcases c.put_cases { fs with failing := faults } key e with
    ⟨fs', cause, hput, hkept, hfault⟩ | ⟨fs', hput, hreachable, hleaves, hnone⟩
  · rw [hput]
    have hmeets : c.Reachable fs → Call.MeetsFault ⟨.put key e, faults⟩ :=
      hfault
    rcases hkept with rfl | ⟨hreachable, hleaves⟩
    · exact ⟨fun _ _ => .putRefused key e cause, id, id, fun h =>
        refused_iff_of_meetsFault (hmeets h) cause⟩
    · have hcontents : c.contents fs' = c.contents fs := by
        funext key
        exact hleaves.get_eq hreachable rfl
      refine ⟨?_, hleaves.readable, fun _ => hleaves.reachable,
        fun h => refused_iff_of_meetsFault (hmeets h) cause⟩
      intro _ _
      rw [hcontents]
      exact .putRefused key e cause
  · rw [hput]
    have hspared : ¬Call.MeetsFault ⟨.put key e, faults⟩ := by
      rintro ⟨change, hchange, hfault⟩
      exact hnone change hchange hfault
    refine ⟨?_, hleaves.readable, fun _ => hleaves.reachable, fun _ =>
      done_iff_of_not_meetsFault hspared⟩
    intro hreadable hround
    rw [contents_of_put hreachable hreadable hround hleaves]
    exact .put key e

theorem responds_drop (c : Cache) (fs : FileSystem) (faults : List FileChange) :
    c.Responds fs ⟨.drop, faults⟩ (c.drop { fs with failing := faults }).1
      (.ofCause (c.drop { fs with failing := faults }).2) := by
  rcases c.drop_cases { fs with failing := faults } with
    ⟨cause, hdrop, hfault⟩ | ⟨fs', hdrop, hleaves, hnone⟩
  · rw [hdrop]
    refine ⟨?_, id, fun h => reachable_removeAll h, ?_⟩
    · intro _ _
      exact .dropRefused cause fun key e =>
        get_ne_ok_some_of_none (files_removeAll c _ key) e
    · intro h
      exact refused_iff_of_meetsFault
        ⟨.makeDirectory, List.mem_singleton_self _, hfault h⟩ cause
  · rw [hdrop]
    have hspared : ¬Call.MeetsFault ⟨.drop, faults⟩ := by
      rintro ⟨change, hchange, hfault⟩
      rw [List.mem_singleton.1 hchange] at hfault
      exact hnone hfault
    refine ⟨?_, hleaves.readable, fun _ => hleaves.reachable, fun _ =>
      done_iff_of_not_meetsFault hspared⟩
    intro hreadable _
    have hcontents : c.contents fs' = fun _ => .ok none := by
      funext key
      exact get_of_none (hleaves.readable hreadable) hleaves.reachable
        (congrFun hleaves.files key)
    rw [hcontents]
    exact .drop

theorem responds_respond (c : Cache) (fs : FileSystem) (call : Call) :
    c.Responds fs call (c.respond fs call).1 (c.respond fs call).2 := by
  obtain ⟨action, faults⟩ := call
  cases action with
  | put key e => exact c.responds_put fs key e faults
  | get key => exact c.responds_get fs key faults
  | drop => exact c.responds_drop fs faults

structure ActsAsMap (c : Cache) (fs : FileSystem)
    (calls : List Call) : Prop where
  runs : (c.contents fs).Runs (c.run fs calls).2 (c.contents (c.run fs calls).1)
  /-- Unless a file was in the way from the start, a call is refused exactly if
  a change that it makes fails. -/
  refused_iff : c.Reachable fs →
    ∀ x ∈ (c.run fs calls).2, (∃ cause, x.2 = .refused cause) ↔ x.1.MeetsFault

/-- Whatever fails, a cache whose files can be opened acts as a map, given that
entries come back as they were written. -/
theorem actsAsMap_run
    (c : Cache) (fs : FileSystem) (calls : List Call)
    (hreadable : c.Readable fs)
    (hround : ∀ call ∈ calls, call.action.RoundTrips) :
    c.ActsAsMap fs calls := by
  induction calls generalizing fs with
  | nil => exact ⟨.nil _, fun _ x hx => absurd hx List.not_mem_nil⟩
  | cons call calls ih =>
    have hresponds := c.responds_respond fs call
    have hrest := ih (c.respond fs call).1 (hresponds.readable hreadable)
      fun call' hcall' => hround call' (List.mem_cons_of_mem call hcall')
    constructor
    · exact .cons (hresponds.step hreadable (hround call List.mem_cons_self))
        hrest.runs
    · intro hreachable x hx
      rcases List.mem_cons.1 hx with rfl | hx
      · exact hresponds.refused_iff hreachable
      · exact hrest.refused_iff (hresponds.reachable hreachable) x hx

/-- Entries under two keys, and changes of files that fail in between. -/
def troubled : List Call :=
  [ { action := .put [0x0A] { emission := ["core.xml"] } },
    { action := .put [0x0A] {}, faults := [.rename] },
    { action := .put [0xFF] {}, faults := [.close, .write] },
    { action := .get [0x0A] },
    { action := .get [0xFF] },
    { action := .put [0xFF] {} },
    { action := .get [0xFF], faults := [.makeDirectory] },
    { action := .drop, faults := [.makeDirectory] },
    { action := .get [0x0A] },
    { action := .put [0x0A] {} },
    { action := .drop, faults := [.rename] },
    { action := .get [0x0A] } ]

theorem actsAsMap_troubled :
    Readable ⟨"/var/cache/../bindings"⟩ {} ∧
    Reachable ⟨"/var/cache/../bindings"⟩ {} ∧
      (∀ call ∈ troubled, call.action.RoundTrips) ∧
      ActsAsMap ⟨"/var/cache/../bindings"⟩ {} troubled ∧
      (run ⟨"/var/cache/../bindings"⟩ {} troubled).2.map Prod.snd =
        [ .done, .refused injected, .refused injected,
        .found (.ok (some { emission := ["core.xml"] })),
          .found (.ok none), .done, .found (.ok (some {})), .refused injected,
          .found (.ok none), .done, .done, .found (.ok none) ] := by
  have hround : ∀ call ∈ troubled, call.action.RoundTrips := by decide +kernel
  have hreadable : Readable ⟨"/var/cache/../bindings"⟩ {} := fun _ => rfl
  have hreachable : Reachable ⟨"/var/cache/../bindings"⟩ {} := by decide +kernel
  refine ⟨hreadable, hreachable, hround, actsAsMap_run _ _ _ hreadable hround,
    ?_⟩
  decide +kernel

end Cache

end ProtocolCorpus
