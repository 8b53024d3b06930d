import ProtocolCorpus.Proofs.Numerals
import ProtocolCorpus.Proofs.Places

/-!
# The files of a cache

The entries of a cache stand side by side in one directory, each in a file that
is named by its key. So files of different keys are different files, and none of
them has the name of a temporary file. What stands in these files, and whether a
file bars the way to them, decides about everything that is found. From this it
is said what putting an entry and dropping all entries leave behind, for every
change of files that can fail on the way.
-/

namespace ProtocolCorpus

/-! ## Names of files -/

namespace Text

theorem hex_cons (b : UInt8) (t : Text) :
    hex (b :: t) = digit (b.toNat / 16) :: digit (b.toNat % 16) :: hex t :=
  rfl

theorem eq_of_digit_eq
    {m n : Nat} (hm : m < 16) (hn : n < 16) (h : digit m = digit n) :
    m = n := by
  have hvalue := digitValue?_digit hm
  rw [h, digitValue?_digit hn] at hvalue
  exact (Option.some.inj hvalue).symm

theorem hex_injective :
    Function.Injective hex := by
  intro s t h
  induction s generalizing t with
  | nil =>
    cases t with
    | nil => rfl
    | cons c t => cases h
  | cons b s ih =>
    cases t with
    | nil => cases h
    | cons c t =>
      have hb := b.toNat_lt
      have hc := c.toNat_lt
      rw [hex_cons, hex_cons, List.cons.injEq, List.cons.injEq] at h
      obtain ⟨hhigh, hlow, hrest⟩ := h
      have hdiv := eq_of_digit_eq (by omega) (by omega) hhigh
      have hmod := eq_of_digit_eq (by omega) (by omega) hlow
      have hbyte : b = c := UInt8.toNat_inj.1 (by omega)
      rw [hbyte, ih hrest]

theorem isSome_digitValue?_of_mem_hex
    {b : UInt8} {t : Text} (h : b ∈ hex t) :
    (digitValue? b).isSome = true := by
  obtain ⟨a, -, hb⟩ := List.mem_flatMap.1 h
  have ha := a.toNat_lt
  rw [List.mem_cons, List.mem_singleton] at hb
  rcases hb with rfl | rfl
  · rw [digitValue?_digit (by omega)]
    rfl
  · rw [digitValue?_digit (by omega)]
    rfl

end Text

namespace Cache

open FileSystem

variable {key : Text} {fs' : FileSystem} {left : Text → Option Node}

def entryName (key : Text) : Text :=
  Text.hex key ++ ".mp"

def temporaryName (n : Nat) : Text :=
  "tmp-" ++ Text.ofNat n

theorem isName_of_length
    {s : Text} (hlength : 2 < s.length) (hslash : Path.slash ∉ s) :
    Path.IsName s := by
  refine ⟨⟨?_, ?_, hslash⟩, ?_⟩
  · rintro rfl
    exact absurd hlength (by decide)
  · rintro rfl
    exact absurd hlength (by decide)
  · rintro rfl
    exact absurd hlength (by decide)

theorem isName_entryName (key : Text) :
    Path.IsName (entryName key) := by
  apply isName_of_length
  · rw [entryName, List.length_append]
    exact Nat.lt_add_left _ (by decide)
  · intro hslash
    rcases List.mem_append.1 hslash with hslash | hslash
    · exact absurd (Text.isSome_digitValue?_of_mem_hex hslash) (by decide)
    · exact absurd hslash (by decide)

theorem isName_temporaryName (n : Nat) :
    Path.IsName (temporaryName n) := by
  apply isName_of_length
  · rw [temporaryName, List.length_append]
    exact Nat.lt_add_right _ (by decide)
  · intro hslash
    rcases List.mem_append.1 hslash with hslash | hslash
    · exact absurd hslash (by decide)
    · exact absurd (Text.isDigit_of_mem_ofNat hslash) (by decide)

theorem isName_ir :
    Path.IsName "ir" :=
  ⟨⟨by decide, by decide, by decide⟩, by decide⟩

/-- A temporary file has a dash in its name, the file of an entry has none. -/
theorem entryName_ne_temporaryName (key : Text) (n : Nat) :
    entryName key ≠ temporaryName n := by
  intro h
  have hdash : (0x2D : UInt8) ∈ temporaryName n :=
    List.mem_append_left _ (by decide)
  rw [← h, entryName, List.mem_append] at hdash
  rcases hdash with hdash | hdash
  · exact absurd (Text.isSome_digitValue?_of_mem_hex hdash) (by decide)
  · exact absurd hdash (by decide)

theorem entryName_injective :
    Function.Injective entryName :=
  fun _ _ h => Text.hex_injective (List.append_cancel_right h)

/-! ## Places of files -/

section

variable (c : Cache) (fs : FileSystem)

theorem leadsDown_ir {s : Text} (h : Path.IsName s) :
    Path.LeadsDown ["ir", s] :=
  isName_ir.leadsDown.append h.leadsDown

theorem locate_entries :
    fs.locate c.entries = fs.under c.dir ["ir"] :=
  fs.locate_join_cons c.dir isName_ir.leadsDown

theorem locate_path (key : Text) :
    fs.locate (c.path key) = fs.under c.dir ["ir", entryName key] :=
  fs.locate_join_cons c.dir (leadsDown_ir (isName_entryName key))

theorem row_entries :
    fs.row c.entries = fs.row c.dir ++ [("ir" : Text)] :=
  fs.row_join_cons c.dir isName_ir.leadsDown

theorem ancestors_path (key : Text) :
    ancestors (fs.locate (c.path key)) = way (fs.locate c.entries) := by
  have hsegment : ∀ s ∈ (fs.row c.dir ++ [("ir" : Text)]) ++ [entryName key],
      Path.IsSegment s := by
    rw [List.append_assoc]
    exact Path.isSegment_of_mem_reduced_append
      (leadsDown_ir (isName_entryName key)).isSegment
  rw [locate_path, locate_entries, under, under,
    ← ancestors_ofSegments_concat hsegment, List.append_assoc]
  rfl

theorem length_segments_path (key : Text) :
    (Path.segments (fs.locate (c.path key))).length =
    (fs.row c.dir).length + 2 := by
  rw [locate_path,
    segments_under fs c.dir (leadsDown_ir (isName_entryName key)).isSegment,
    List.length_append]
  rfl

theorem path_notMem_way_entries (key : Text) :
    fs.locate (c.path key) ∉ way (fs.locate c.entries) := by
  intro hmem
  have hlength := length_segments_of_mem_way hmem
  rw [length_segments_path, row_entries, List.length_append,
    List.length_singleton] at hlength
  omega

theorem path_notMem_way_dir (key : Text) :
    fs.locate (c.path key) ∉ way (fs.locate c.dir) := by
  intro hmem
  have hlength := length_segments_of_mem_way hmem
  rw [length_segments_path] at hlength
  omega

theorem eq_of_locate_path_eq
    {c : Cache} {fs : FileSystem} {key key' : Text}
    (h : fs.locate (c.path key) = fs.locate (c.path key')) :
    key = key' := by
  rw [locate_path, locate_path] at h
  have hnames := eq_of_under_eq (leadsDown_ir (isName_entryName key)).isSegment
    (leadsDown_ir (isName_entryName key')).isSegment h
  apply entryName_injective
  simpa using hnames

theorem freshName_cases :
    fs.freshName c.entries = c.entries ∨
      ∃ n, fs.freshName c.entries =
      Path.join [c.dir, "ir", temporaryName n] := by
  rw [freshName]
  cases hfound : ((List.range (fs.nodes.length + 1)).map fun n =>
      Path.join [c.entries, "tmp-" ++ Text.ofNat n]).find? fun p =>
        (fs.node? p).isNone with
  | none => exact .inl rfl
  | some p =>
    obtain ⟨n, -, rfl⟩ := List.mem_map.1 (List.mem_of_find?_eq_some hfound)
    exact .inr
      ⟨n, Path.join_join_cons c.dir isName_ir.leadsDown
      (isName_temporaryName n).leadsDown⟩

theorem freshName_ne_nil :
    fs.freshName c.entries ≠ [] := by
  rcases freshName_cases c fs with hname | ⟨n, hname⟩
  · rw [hname]
    exact Path.join_cons_ne_nil c.dir isName_ir.leadsDown
  · rw [hname]
    exact Path.join_cons_ne_nil c.dir (leadsDown_ir (isName_temporaryName n))

theorem locate_path_ne_freshName (key : Text) :
    fs.locate (c.path key) ≠ fs.locate (fs.freshName c.entries) := by
  have hpath := leadsDown_ir (isName_entryName key)
  intro h
  rw [locate_path] at h
  rcases freshName_cases c fs with hname | ⟨n, hname⟩
  · rw [hname, locate_entries] at h
    have hnames :=
      eq_of_under_eq hpath.isSegment isName_ir.leadsDown.isSegment h
    cases hnames
  · have htemporary := leadsDown_ir (isName_temporaryName n)
    rw [hname, fs.locate_join_cons c.dir htemporary] at h
    have hnames := eq_of_under_eq hpath.isSegment htemporary.isSegment h
    exact entryName_ne_temporaryName key n (by simpa using hnames)

end

/-! ## What is found -/

/-- What stands at the place of each entry. -/
def files (c : Cache) (fs : FileSystem) (key : Text) : Option Node :=
  fs.nodes.lookup (fs.locate (c.path key))

/-- No file stands on the way to the entries. -/
def Reachable (c : Cache) (fs : FileSystem) : Prop :=
  fs.Passable (fs.locate c.entries)

instance (c : Cache) (fs : FileSystem) : Decidable (c.Reachable fs) :=
  inferInstanceAs (Decidable (fs.Passable _))

/-- The file of every entry can be opened. -/
def Readable (c : Cache) (fs : FileSystem) : Prop :=
  ∀ key, fs.unreadable.contains (fs.locate (c.path key)) = false

theorem blocked_path_eq_false
    {c : Cache} {fs : FileSystem} (h : c.Reachable fs) (key : Text) :
    fs.blocked (c.path key) = false := by
  rw [blocked, ancestors_path, List.any_eq_false]
  intro p hp
  rw [h p hp]
  exact Bool.false_ne_true

theorem node?_path (c : Cache) (fs : FileSystem) (key : Text) :
    fs.node? (c.path key) = c.files fs key := by
  have hne : c.path key ≠ [] :=
    Path.join_cons_ne_nil c.dir (leadsDown_ir (isName_entryName key))
  simp [node?, hne, files]

theorem get_eq_ok_some_iff {c : Cache} {fs : FileSystem} {e : CacheEntry} :
    c.get fs key = .ok (some e) ↔ c.get? fs key = some e := by
  rw [get?]
  cases c.get fs key with
  | error cause => simp [Except.toOption]
  | ok found => simp [Except.toOption]

theorem get_of_file {c : Cache} {fs : FileSystem} {e : CacheEntry}
    (hreadable : c.Readable fs) (hfile : c.files fs key = some (.file e.encode))
    (hround : CacheEntry.decode? e.encode = some e) :
    c.get fs key = .ok (some e) := by
  rw [get_eq_ok_some_iff, get?_eq, hreadable key, node?_path, hfile]
  exact hround

theorem get_ne_ok_some_of_none {c : Cache} {fs : FileSystem}
    (hnone : c.files fs key = none) (e : CacheEntry) :
    c.get fs key ≠ .ok (some e) := by
  rw [ne_eq, get_eq_ok_some_iff, get?_eq, node?_path, hnone]
  split
  · simp
  · simp [entryOf]

theorem get_of_none {c : Cache} {fs : FileSystem} (hreadable : c.Readable fs)
    (hreachable : c.Reachable fs) (hnone : c.files fs key = none) :
    c.get fs key = .ok none := by
  have hread : fs.read (c.path key) =
      .error (fs.missing "open" (c.path key)) := by
    unfold FileSystem.read
    rw [hreadable key, node?_path, hnone]
    rfl
  have hmissing : (fs.missing "open" (c.path key)).missing = true := by
    unfold FileSystem.missing
    rw [blocked_path_eq_false hreachable]
    cases fs.dialect with
    | memory => rfl
    | host cwd => rfl
  rw [get, hread]
  exact if_pos hmissing

/-- What is found under a key depends on its file only, as long as no file is in
the way. -/
theorem get_congr {c : Cache} {fs : FileSystem}
    (hdialect : fs'.dialect = fs.dialect)
    (hunreadable : fs'.unreadable = fs.unreadable) (hreachable : c.Reachable fs)
    (hreachable' : c.Reachable fs')
    (hfiles : c.files fs' key = c.files fs key) :
    c.get fs' key = c.get fs key := by
  have hlocate : fs'.locate (c.path key) = fs.locate (c.path key) := by
    unfold locate
    rw [hdialect]
  have hmissing : fs'.missing "open" (c.path key) =
      fs.missing "open" (c.path key) := by
    unfold FileSystem.missing
    rw [hdialect, hlocate, blocked_path_eq_false hreachable,
      blocked_path_eq_false hreachable']
  have hread : fs'.read (c.path key) = fs.read (c.path key) := by
    unfold FileSystem.read
    rw [hunreadable, hlocate, node?_path, node?_path, hfiles, hdialect,
      hmissing]
  rw [get, get, hread]

/-! ## What a call leaves behind -/

/-- A file system after a call, and what stands at the places of the entries
then. -/
structure Leaves (c : Cache) (fs fs' : FileSystem) (left : Text → Option Node) :
    Prop where
  dialect : fs'.dialect = fs.dialect
  unreadable : fs'.unreadable = fs.unreadable
  reachable : c.Reachable fs'
  files : c.files fs' = left

theorem leaves_makeDirectory
    {c : Cache} {fs : FileSystem} (h : c.Reachable fs) :
    c.Leaves fs (fs.makeDirectory c.entries) (c.files fs) := by
  have hspared := spared_makeDirectory fs c.entries
  refine ⟨hspared.dialect, hspared.unreadable, ?_, ?_⟩
  · intro p hp
    rw [hspared.locate] at hp
    rw [fileAt, lookup_makeDirectory_of_mem h hp]
  · funext key
    rw [files, hspared.locate,
      lookup_makeDirectory_of_notMem (path_notMem_way_entries c fs key)]
    rfl

theorem Leaves.remove {c : Cache} {fs : FileSystem} (h : c.Leaves fs fs' left)
    {path : Text} (haside : ∀ key, fs'.locate (c.path key) ≠ fs'.locate path) :
    c.Leaves fs (fs'.remove path) left := by
  refine ⟨h.dialect, h.unreadable, ?_, ?_⟩
  · intro p hp
    apply fileAt_eq_false_of_lookup _ (h.reachable p hp)
    rw [lookup_remove]
    exact ite_eq_or_eq _ _ _
  · rw [← h.files]
    funext key
    change (fs'.remove path).nodes.lookup (fs'.locate (c.path key)) = _
    rw [lookup_remove, if_neg (by simpa using haside key)]
    rfl

theorem Leaves.put {c : Cache} {fs : FileSystem} (h : c.Leaves fs fs' left)
    (key : Text) (n : Node) :
    c.Leaves fs (fs'.put (c.path key) n)
      (Function.update left key (some n)) := by
  refine ⟨h.dialect, h.unreadable, ?_, ?_⟩
  · intro p hp
    have hne : p ≠ fs'.locate (c.path key) := by
      rintro rfl
      exact path_notMem_way_entries c fs' key hp
    apply fileAt_eq_false_of_lookup _ (h.reachable p hp)
    rw [lookup_put, if_neg (by simpa using hne)]
    exact .inr rfl
  · rw [← h.files]
    funext key'
    change (fs'.put (c.path key) n).nodes.lookup (fs'.locate (c.path key')) = _
    rw [lookup_put]
    by_cases hkey : key' = key
    · rw [hkey, Function.update_self]
      exact if_pos BEq.rfl
    · have hne : fs'.locate (c.path key') ≠ fs'.locate (c.path key) :=
        fun heq => hkey (eq_of_locate_path_eq heq)
      rw [Function.update_of_ne hkey, if_neg (by simpa using hne)]
      rfl

/-- Where only the files of the entries matter, they decide what is found. -/
theorem Leaves.get_eq {c : Cache} {fs : FileSystem} (h : c.Leaves fs fs' left)
    (hreachable : c.Reachable fs) (hkey : left key = c.files fs key) :
    c.get fs' key = c.get fs key := by
  apply get_congr h.dialect h.unreadable hreachable h.reachable
  rw [h.files, hkey]

theorem Leaves.readable {c : Cache} {fs : FileSystem} (h : c.Leaves fs fs' left)
    (hreadable : c.Readable fs) :
    c.Readable fs' := by
  intro key
  rw [h.unreadable, locate, h.dialect]
  exact hreadable key

/-! ## Putting an entry -/

def putChanges : List FileChange :=
  [.makeDirectory, .makeTemporary, .write, .close, .rename]

theorem remove_put_self (fs : FileSystem) (path : Text) (n : Node) :
    (fs.put path n).remove path = fs.remove path := by
  have hfilter : ((fs.put path n).nodes.filter fun e => e.1 != fs.locate path) =
      fs.nodes.filter fun e => e.1 != fs.locate path := by
    simp [FileSystem.put]
  change { fs with nodes := _ } = { fs with nodes := _ }
  exact congrArg (fun nodes => { fs with nodes := nodes }) hfilter

theorem install_eq
    {temporary : Text} (htemporary : temporary ≠ []) (target content : Text)
    (fs : FileSystem) :
    install fs temporary target content =
      if .write ∈ fs.failing ∨ .close ∈ fs.failing ∨ .rename ∈ fs.failing then
      .error injected
      else .ok ((fs.remove temporary).put target (.file content)) := by
  have hnode : (fs.put temporary (.file content)).node? temporary =
      some (.file content) := by
    have hlookup :=
      fs.lookup_put temporary (fs.locate temporary) (.file content)
    rw [if_pos BEq.rfl] at hlookup
    rw [node?, if_neg (by simp [htemporary])]
    exact hlookup
  have hfailing : (fs.put temporary (.file content)).failing = fs.failing := rfl
  unfold install fill close rename
  by_cases hwrite : FileChange.write ∈ fs.failing
  · simp [hwrite, bind, Except.bind]
  · by_cases hclose : FileChange.close ∈ fs.failing
    · simp [hwrite, hclose, hfailing, bind, Except.bind]
    · by_cases hrename : FileChange.rename ∈ fs.failing
      · simp [hwrite, hclose, hrename, hfailing, bind, Except.bind]
      · simp [hwrite, hclose, hrename, hfailing, hnode, remove_put_self, bind,
          Except.bind]

theorem put_eq
    {c : Cache} {fs made : FileSystem}
    (hmade : fs.ensureDirectory c.entries = .ok made) (key : Text)
    (e : CacheEntry) :
    c.put fs key e =
      if .makeTemporary ∈ made.failing then (made, some injected)
      else if .write ∈ made.failing ∨ .close ∈ made.failing ∨
      .rename ∈ made.failing then
        (made.remove (made.freshName c.entries), some injected)
      else ((made.remove (made.freshName c.entries)).put (c.path key)
        (.file e.encode), none) := by
  rw [put, hmade]
  dsimp only
  by_cases htemporary : FileChange.makeTemporary ∈ made.failing
  · have hopened : made.makeTemporary c.entries = .error injected :=
      if_pos (by simpa using htemporary)
    rw [hopened, if_pos htemporary]
  · have hopened : made.makeTemporary c.entries =
        .ok (made.put (made.freshName c.entries) (.file []),
        made.freshName c.entries) :=
      if_neg (by simpa using htemporary)
    have hinstall := install_eq (freshName_ne_nil c made) (c.path key) e.encode
      (made.put (made.freshName c.entries) (.file []))
    rw [remove_put_self] at hinstall
    change _ = if .write ∈ made.failing ∨ .close ∈ made.failing ∨
      .rename ∈ made.failing then _ else _
      at hinstall
    rw [hopened, if_neg htemporary]
    dsimp only
    rw [hinstall]
    by_cases hfault : .write ∈ made.failing ∨ .close ∈ made.failing ∨
      .rename ∈ made.failing
    · rw [if_pos hfault, if_pos hfault, remove_put_self]
    · rw [if_neg hfault, if_neg hfault]

/-- Either an entry is put, or nothing at all, and then because something failed
or is in the way. -/
theorem put_cases (c : Cache) (fs : FileSystem) (key : Text) (e : CacheEntry) :
    (∃ fs' cause, c.put fs key e = (fs', some cause) ∧
      (fs' = fs ∨ c.Reachable fs ∧ c.Leaves fs fs' (c.files fs)) ∧
      (c.Reachable fs → ∃ change ∈ putChanges, change ∈ fs.failing)) ∨
    ∃ fs', c.put fs key e = (fs', none) ∧ c.Reachable fs ∧
      c.Leaves fs fs'
      (Function.update (c.files fs) key (some (.file e.encode))) ∧
      ∀ change ∈ putChanges, change ∉ fs.failing := by
  cases hmade : fs.ensureDirectory c.entries with
  | error cause =>
    refine .inl ⟨fs, cause, by rw [put, hmade], .inl rfl, ?_⟩
    intro hreachable
    refine ⟨.makeDirectory, by simp [putChanges], ?_⟩
    by_contra hfault
    rw [ensureDirectory_eq_ok_iff.2 ⟨hfault, hreachable, rfl⟩] at hmade
    cases hmade
  | ok made =>
    have hput := put_eq hmade key e
    obtain ⟨hfault, hreachable, rfl⟩ := ensureDirectory_eq_ok_iff.1 hmade
    have hmadeLeaves := leaves_makeDirectory hreachable
    have hremoved := hmadeLeaves.remove fun key =>
      locate_path_ne_freshName c _ key
    have hfailing : (fs.makeDirectory c.entries).failing = fs.failing := by
      obtain ⟨nodes, hnodes⟩ := fs.exists_makeDirectory_eq c.entries
      rw [hnodes]
    rw [hfailing] at hput
    split at hput
    next htemporary =>
      exact .inl ⟨_, _, hput, .inr ⟨hreachable, hmadeLeaves⟩,
        fun _ => ⟨.makeTemporary, by simp [putChanges], htemporary⟩⟩
    next htemporary =>
      split at hput
      next hinstall =>
        refine .inl ⟨_, _, hput, .inr ⟨hreachable, hremoved⟩, ?_⟩
        intro _
        simpa [putChanges] using .inr (.inr hinstall)
      next hinstall =>
        refine .inr ⟨_, hput, hreachable, hremoved.put key _, ?_⟩
        simpa [putChanges, hfault, htemporary] using hinstall

/-! ## Dropping all entries -/

theorem files_removeAll (c : Cache) (fs : FileSystem) (key : Text) :
    c.files (fs.removeAll c.dir) key = none := by
  change (fs.removeAll c.dir).nodes.lookup (fs.locate (c.path key)) = none
  rw [locate_path]
  exact lookup_removeAll_under fs c.dir (leadsDown_ir (isName_entryName key))

theorem reachable_removeAll
    {c : Cache} {fs : FileSystem} (h : c.Reachable fs) :
    c.Reachable (fs.removeAll c.dir) :=
  fun p hp => fileAt_eq_false_of_lookup (lookup_removeAll_cases fs c.dir p)
    (h p hp)

theorem way_entries
    {c : Cache} {fs : FileSystem} (h : fs.row c.dir ≠ []) :
    way (fs.locate c.entries) = way (fs.locate c.dir) ++
      [fs.locate c.entries] := by
  have hsegment : ∀ s ∈ fs.row c.dir ++ [("ir" : Text)], Path.IsSegment s :=
    Path.isSegment_of_mem_reduced_append isName_ir.leadsDown.isSegment
  have hancestors :=
    ancestors_ofSegments_concat hsegment (Path.isAbsolute (fs.fullPath c.dir))
  rw [locate_of_row_ne_nil h, locate_entries, way, under, hancestors, under,
    List.append_nil]

/-- Whatever leads to the directory that was removed leads to the entries, or is
gone. -/
theorem passable_removeAll
    {c : Cache} {fs : FileSystem} (h : c.Reachable fs) :
    (fs.removeAll c.dir).Passable (fs.locate c.dir) := by
  intro p hp
  by_cases hrow : fs.row c.dir = []
  · rw [fileAt, lookup_removeAll_of_row_eq_nil hrow]
  · apply reachable_removeAll h p
    change p ∈ way (fs.locate c.entries)
    rw [way_entries hrow]
    exact List.mem_append_left _ hp

theorem leaves_removeAll_makeDirectory
    {c : Cache} {fs : FileSystem}
    (h : (fs.removeAll c.dir).Passable (fs.locate c.dir)) :
    c.Leaves fs ((fs.removeAll c.dir).makeDirectory c.dir) fun _ => none := by
  have hspared := spared_makeDirectory (fs.removeAll c.dir) c.dir
  refine ⟨hspared.dialect, hspared.unreadable, ?_, ?_⟩
  · intro p hp
    rw [hspared.locate] at hp
    by_cases hdir : p ∈ way ((fs.removeAll c.dir).locate c.dir)
    · rw [fileAt, lookup_makeDirectory_of_mem h hdir]
    · have hgone : (fs.removeAll c.dir).nodes.lookup p = none := by
        by_cases hrow : fs.row c.dir = []
        · exact lookup_removeAll_of_row_eq_nil hrow p
        · change p ∈ way (fs.locate c.entries) at hp
          rw [way_entries hrow, List.mem_append, List.mem_singleton] at hp
          rw [hp.resolve_left hdir, locate_entries]
          exact lookup_removeAll_under fs c.dir isName_ir.leadsDown
      rw [fileAt, lookup_makeDirectory_of_notMem hdir, hgone]
  · funext key
    rw [files, hspared.locate, lookup_makeDirectory_of_notMem
      (path_notMem_way_dir c (fs.removeAll c.dir) key)]
    exact files_removeAll c fs key

/-- All entries are gone, whether their directory could be made again or not. -/
theorem drop_cases (c : Cache) (fs : FileSystem) :
    (∃ cause, c.drop fs = (fs.removeAll c.dir, some cause) ∧
      (c.Reachable fs → .makeDirectory ∈ fs.failing)) ∨
    ∃ fs', c.drop fs = (fs', none) ∧ c.Leaves fs fs' (fun _ => none) ∧
      .makeDirectory ∉ fs.failing := by
  unfold drop
  dsimp only
  cases hmade : (fs.removeAll c.dir).ensureDirectory c.dir with
  | error cause =>
    refine .inl ⟨cause, rfl, ?_⟩
    intro hreachable
    by_contra hfault
    have hok : (fs.removeAll c.dir).ensureDirectory c.dir = .ok _ :=
      ensureDirectory_eq_ok_iff.2 ⟨hfault, passable_removeAll hreachable, rfl⟩
    rw [hok] at hmade
    cases hmade
  | ok made =>
    obtain ⟨hfault, hpassable, rfl⟩ := ensureDirectory_eq_ok_iff.1 hmade
    exact .inr ⟨_, rfl, leaves_removeAll_makeDirectory hpassable, hfault⟩

end Cache

end ProtocolCorpus
