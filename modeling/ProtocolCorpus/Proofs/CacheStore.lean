import ProtocolCorpus.Cache.Store
import ProtocolCorpus.Proofs.Chain

/-!
# What can be read after an entry was put into a cache

Putting an entry into a cache makes directories and a temporary file, any of
which can fail. On the way every path holds what it held before, or nothing that
could be taken for an entry. So a key under which nothing was found gives
nothing afterwards, or the entry that was put there.
-/

namespace ProtocolCorpus

/-! ## Tables -/

theorem lookup_append_singleton
    {α β : Type} [BEq α] [LawfulBEq α] (table : List (α × β)) (k j : α)
    (b : β) :
    (table ++ [(k, b)]).lookup j = (table.lookup j).or (if j == k then some b
      else none) := by
  induction table with
  | nil =>
    rw [List.nil_append, List.lookup_cons]
    cases j == k with
    | true => rfl
    | false => rfl
  | cons e table ih =>
    rw [List.cons_append, List.lookup_cons, List.lookup_cons, ih]
    cases j == e.1 with
    | true => rfl
    | false => rfl

theorem lookup_filter
    {α β : Type} [BEq α] [LawfulBEq α] (table : List (α × β)) (keep : α → Bool)
    (j : α) :
    (table.filter fun e => keep e.1).lookup j = if keep j then table.lookup j
      else none := by
  induction table with
  | nil => simp
  | cons e table ih =>
    by_cases he : keep e.1 = true
    · rw [List.filter_cons_of_pos (by exact he), List.lookup_cons,
        List.lookup_cons, ih]
      cases hj : j == e.1 with
      | true =>
        rw [eq_of_beq hj]
        exact (if_pos he).symm
      | false => rfl
    · rw [List.filter_cons_of_neg (by exact he), ih, List.lookup_cons]
      cases hj : j == e.1 with
      | true => rw [eq_of_beq hj, if_neg he, if_neg he]
      | false => rfl

theorem lookup_filter_ne
    {α β : Type} [BEq α] [LawfulBEq α] (table : List (α × β)) (k j : α) :
    (table.filter fun e => e.1 != k).lookup j = if j == k then none
      else table.lookup j := by
  rw [lookup_filter table (fun a => a != k), bne]
  cases j == k with
  | true => rfl
  | false => rfl

namespace FileSystem

variable {fs fs' : FileSystem}

theorem lookup_put (fs : FileSystem) (path k : Text) (n : Node) :
    (fs.put path n).nodes.lookup k = if k == fs.locate path then some n
    else fs.nodes.lookup k := by
  rw [put, lookup_append_singleton, lookup_filter_ne]
  cases k == fs.locate path with
  | true => rfl
  | false => exact Option.or_none

theorem lookup_remove (fs : FileSystem) (path k : Text) :
    (fs.remove path).nodes.lookup k = if k == fs.locate path then none
    else fs.nodes.lookup k :=
  lookup_filter_ne fs.nodes (fs.locate path) k

/-! ## Paths that are spared -/

/-- Nothing that could be taken for an entry. -/
def Blank (n? : Option Node) : Prop :=
  n? = none ∨ n? = some .directory ∨ n? = some (.file [])

/-- Every path holds what it held before, or something blank. -/
structure Spared (fs fs' : FileSystem) : Prop where
  dialect : fs'.dialect = fs.dialect
  unreadable : fs'.unreadable = fs.unreadable
  lookup : ∀ k, fs'.nodes.lookup k = fs.nodes.lookup k ∨
    Blank (fs'.nodes.lookup k)

theorem Spared.refl (fs : FileSystem) :
    Spared fs fs :=
  ⟨rfl, rfl, fun _ => .inl rfl⟩

theorem Spared.trans {fs'' : FileSystem} (h : Spared fs fs')
    (h' : Spared fs' fs'') :
    Spared fs fs'' := by
  refine ⟨h'.dialect.trans h.dialect, h'.unreadable.trans h.unreadable, ?_⟩
  intro k
  rcases h'.lookup k with heq | hblank
  · rw [heq]
    exact h.lookup k
  · exact .inr hblank

theorem spared_put
    {n : Node} (hn : Blank (some n)) (fs : FileSystem) (path : Text) :
    Spared fs (fs.put path n) := by
  refine ⟨rfl, rfl, ?_⟩
  intro k
  rw [lookup_put]
  split
  · exact .inr hn
  · exact .inl rfl

theorem spared_remove (fs : FileSystem) (path : Text) :
    Spared fs (fs.remove path) := by
  refine ⟨rfl, rfl, ?_⟩
  intro k
  rw [lookup_remove]
  split
  · exact .inr (.inl rfl)
  · exact .inl rfl

/-- A directory that is missing on the way to a path is made. -/
def passBy (fs : FileSystem) (p : Text) : FileSystem :=
  if (fs.nodes.lookup p).isSome then fs
  else { fs with nodes := fs.nodes ++ [(p, .directory)] }

theorem spared_passBy (fs : FileSystem) (p : Text) :
    Spared fs (fs.passBy p) := by
  unfold passBy
  split
  · exact .refl fs
  next hnone =>
    refine ⟨rfl, rfl, ?_⟩
    intro k
    rw [lookup_append_singleton]
    cases hk : k == p with
    | true =>
      have hlookup : fs.nodes.lookup p = none :=
        Option.not_isSome_iff_eq_none.1 hnone
      rw [eq_of_beq hk, hlookup]
      exact .inr (.inr (.inl rfl))
    | false => exact .inl Option.or_none

theorem spared_foldl_passBy (fs : FileSystem) (ps : List Text) :
    Spared fs (ps.foldl passBy fs) := by
  induction ps generalizing fs with
  | nil => exact .refl fs
  | cons p ps ih => exact (spared_passBy fs p).trans (ih (fs.passBy p))

theorem spared_makeDirectory (fs : FileSystem) (path : Text) :
    Spared fs (fs.makeDirectory path) := by
  have hparents : Spared fs (fs.makeParents path) := spared_foldl_passBy fs _
  unfold makeDirectory
  dsimp only
  split
  · exact hparents
  · exact hparents.trans (spared_put (.inr (.inl rfl)) _ path)

theorem spared_ensureDirectory {path : Text}
    (h : fs.ensureDirectory path = .ok fs') :
    Spared fs fs' := by
  unfold ensureDirectory at h
  split at h
  next => cases h
  next =>
    dsimp only at h
    split at h
    next => cases h
    next =>
      cases h
      exact spared_makeDirectory fs path

theorem spared_makeTemporary {directory path : Text}
    (h : fs.makeTemporary directory = .ok (fs', path)) :
    Spared fs fs' := by
  unfold makeTemporary at h
  split at h
  next => cases h
  next =>
    cases h
    exact spared_put (.inr (.inr rfl)) fs _

theorem node?_put_self (fs : FileSystem) (path : Text) (n : Node) :
    (fs.put path n).node? path = none ∨ (fs.put path n).node? path =
    some n := by
  unfold node?
  split
  · exact .inl rfl
  · right
    rw [lookup_put]
    exact if_pos BEq.rfl

theorem Spared.locate (h : Spared fs fs') (path : Text) :
    fs'.locate path = fs.locate path := by
  unfold FileSystem.locate
  rw [h.dialect]

theorem Spared.node? (h : Spared fs fs') (path : Text) :
    fs'.node? path = fs.node? path ∨ Blank (fs'.node? path) := by
  unfold FileSystem.node?
  rw [h.dialect, h.locate]
  split
  · exact .inl rfl
  · exact h.lookup _

end FileSystem

/-! ## Entries -/

namespace Cache

open FileSystem

theorem decode?_nil :
    CacheEntry.decode? [] = none := by
  decide +kernel

/-- The entry that stands at a path, given what is there. -/
def entryOf (n? : Option Node) : Option CacheEntry :=
  match n? with
  | some (.file t) => CacheEntry.decode? t
  | _ => none

theorem entryOf_of_blank
    {n? : Option Node} (h : Blank n?) :
    entryOf n? = none := by
  rcases h with rfl | rfl | rfl
  · rfl
  · rfl
  · exact decode?_nil

theorem decode?_eq_none_of_read?
    {t : Text} (h : CacheEntry.read? t = none) :
    CacheEntry.decode? t = none := by
  rw [CacheEntry.decode?, h]
  rfl

theorem get?_eq_of_read (c : Cache) (fs : FileSystem) (key : Text) :
    c.get? fs key =
    (fs.read (c.path key)).toOption.bind CacheEntry.decode? := by
  unfold get? get
  cases fs.read (c.path key) with
  | error e =>
    dsimp only
    split
    · rfl
    · rfl
  | ok content =>
    dsimp only
    split
    next hdamaged =>
      exact (decode?_eq_none_of_read?
        (Option.isNone_iff_eq_none.1 hdamaged)).symm
    next => rfl

/-- A store in memory reads a directory as an empty file, which is no entry
either. -/
theorem get?_eq (c : Cache) (fs : FileSystem) (key : Text) :
    c.get? fs key =
      if fs.unreadable.contains (fs.locate (c.path key)) then none
      else entryOf (fs.node? (c.path key)) := by
  rw [get?_eq_of_read]
  unfold FileSystem.read
  by_cases hunreadable : fs.unreadable.contains (fs.locate (c.path key)) = true
  · rw [if_pos hunreadable, if_pos hunreadable]
    rfl
  · rw [if_neg hunreadable, if_neg hunreadable]
    cases fs.node? (c.path key) with
    | none => rfl
    | some n =>
      cases n with
      | file t => rfl
      | directory =>
        cases fs.dialect with
        | memory => exact decode?_nil
        | host cwd => rfl

/-- Where nothing was found, nothing is found as long as paths are spared. -/
theorem get?_eq_none_of_spared
    {c : Cache} {fs fs' : FileSystem} {key : Text}
    (hnone : c.get? fs key = none) (h : Spared fs fs') :
    c.get? fs' key = none := by
  rw [get?_eq] at hnone ⊢
  rw [h.unreadable, h.locate]
  split
  · rfl
  next hreadable =>
    rw [if_neg hreadable] at hnone
    rcases h.node? (c.path key) with heq | hblank
    · rw [heq, hnone]
    · exact entryOf_of_blank hblank

theorem exists_eq_put_of_install
    {fs fs' : FileSystem} {temporary target content : Text}
    (h : install fs temporary target content = .ok fs') :
    ∃ before : FileSystem, fs' = before.put target (.file content) := by
  simp only [install, Chain.bind_eq_ok_iff] at h
  obtain ⟨filled, hfill, closed, hclose, hrename⟩ := h
  have hfilled : filled = fs.put temporary (.file content) := by
    unfold fill at hfill
    split at hfill
    · cases hfill
    · exact (Except.ok.inj hfill).symm
  have hclosed : closed = filled := by
    unfold close at hclose
    split at hclose
    · cases hclose
    · exact (Except.ok.inj hclose).symm
  rw [hclosed, hfilled] at hrename
  unfold rename at hrename
  split at hrename
  · cases hrename
  · rcases node?_put_self fs temporary (.file content) with hnode | hnode
    · rw [hnode] at hrename
      cases hrename
    · rw [hnode] at hrename
      exact ⟨_, (Except.ok.inj hrename).symm⟩

/-- Where nothing was found, there is nothing after an entry was put there, or
the entry. -/
theorem get?_put
    {c : Cache} {fs : FileSystem} {key : Text} (hnone : c.get? fs key = none)
    (e : CacheEntry) :
    c.get? (c.put fs key e).1 key = none ∨ c.get? (c.put fs key e).1 key =
      CacheEntry.decode? e.encode := by
  unfold put
  split
  next => exact .inl hnone
  next made hmade =>
    have hspared := spared_ensureDirectory hmade
    split
    next => exact .inl (get?_eq_none_of_spared hnone hspared)
    next opened temporary hopened =>
      have hspared := hspared.trans (spared_makeTemporary hopened)
      split
      next =>
        exact .inl
          (get?_eq_none_of_spared hnone
          (hspared.trans (spared_remove opened temporary)))
      next installed hinstalled =>
        obtain ⟨before, rfl⟩ := exists_eq_put_of_install hinstalled
        dsimp only
        rw [get?_eq]
        split
        · exact .inl rfl
        · rcases node?_put_self before (c.path key) (.file e.encode)
            with hnode | hnode
          · exact .inl (by rw [hnode]; rfl)
          · exact .inr (by rw [hnode]; rfl)

end Cache

end ProtocolCorpus
