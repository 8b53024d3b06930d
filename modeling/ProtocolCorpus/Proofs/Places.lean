import ProtocolCorpus.Proofs.CacheStore
import ProtocolCorpus.Proofs.Path

/-!
# Places below a directory

A file system looks a path up by its clean form, and a relative path starts
elsewhere on the host than in memory. Read either way, a row of names below a
directory leads through the segments of the directory first and through the
names then. So places below a directory differ as soon as the names do, and the
directories that lead to a place are the beginnings of its row. What is made,
and what is removed, when a program asks for a directory or for its removal, is
said in these terms.
-/

namespace ProtocolCorpus

namespace Path

variable {names ss : List Text}

/-- A segment that leads down. -/
structure IsName (s : Text) : Prop extends IsSegment s where
  ne_up : s ≠ up

structure LeadsDown (names : List Text) : Prop where
  isName : ∀ s ∈ names, IsName s
  nonempty : names ≠ []

theorem LeadsDown.isSegment (h : LeadsDown names) :
    ∀ s ∈ names, IsSegment s :=
  fun s hs => (h.isName s hs).toIsSegment

theorem LeadsDown.up_notMem (h : LeadsDown names) :
    up ∉ names :=
  fun hup => (h.isName up hup).ne_up rfl

theorem LeadsDown.append {names' : List Text} (h : LeadsDown names)
    (h' : LeadsDown names') :
    LeadsDown (names ++ names') := by
  refine ⟨?_, by simp [h.nonempty]⟩
  intro s hs
  rcases List.mem_append.1 hs with hs | hs
  · exact h.isName s hs
  · exact h'.isName s hs

theorem IsName.leadsDown
    {s : Text} (h : IsName s) :
    LeadsDown [s] :=
  ⟨by simpa using h, List.cons_ne_nil s []⟩

/-! ## Steps up in the middle -/

theorem reduce_concat (rooted : Bool) (segs : List Text) (s : Text) :
    reduce rooted (segs ++ [s]) =
    (push rooted (reduce rooted segs).reverse s).reverse := by
  rw [reduce, reduce, List.foldl_concat, List.reverse_reverse]

/-- It does not matter whether the steps up in the middle of a path are done
before what stands in front of them is known. -/
theorem foldl_push_reduce (rooted : Bool) (segs stack : List Text) :
    (reduce false segs).foldl (push rooted) stack =
    segs.foldl (push rooted) stack := by
  induction segs using List.reverseRecOn with
  | nil => rfl
  | append_singleton segs s ih =>
    by_cases hs : s = up
    · obtain ⟨k, down, hreduced, hdown, -⟩ := exists_reduce_eq false segs
      rcases List.eq_nil_or_concat down with rfl | ⟨down, last, rfl⟩
      · -- nothing is left to take away, so the step up is kept
        have hkept : reduce false (segs ++ [s]) = reduce false segs ++ [s] := by
          have honly : reduce false (segs ++ [up]) =
              reduce false (List.replicate k up ++ [up]) := by
            rw [reduce_concat, reduce_concat, reduce_replicate_up, hreduced,
              List.append_nil]
          rw [hs, honly, ← List.replicate_succ', reduce_replicate_up, hreduced,
            List.append_nil, List.replicate_succ']
        rw [hkept, List.foldl_append, List.foldl_append, ih]
      · have hlast : last ≠ ".." := by
          rintro rfl
          exact hdown (by simp)
        have htaken : reduce false (segs ++ [s]) =
            List.replicate k up ++ down := by
          rw [reduce_concat, hreduced, hs]
          simp [push, hlast]
        have hall : segs.foldl (push rooted) stack =
            push rooted
            ((List.replicate k up ++ down).foldl (push rooted) stack) last := by
          rw [← ih, hreduced, List.concat_eq_append, ← List.append_assoc,
            List.foldl_concat]
        rw [htaken, List.foldl_concat, hall, hs]
        simp [push, hlast]
    · have hdown : up ∉ [s] := by simpa using Ne.symm hs
      rw [reduce_append _ _ hdown, List.foldl_append, List.foldl_append, ih]

theorem reduce_append_reduce (rooted : Bool) (front segs : List Text) :
    reduce rooted (front ++ reduce false segs) =
    reduce rooted (front ++ segs) := by
  change ((front ++ reduce false segs).foldl (push rooted) []).reverse = _
  rw [List.foldl_append, foldl_push_reduce, ← List.foldl_append]
  rfl

/-! ## Names below a directory -/

theorem segments_clean (p : Text) :
    segments (clean p) = reduced p :=
  segments_ofSegments (fun _ hs => isSegment_of_mem_reduced hs) _

theorem clean_eq_of_segments_eq {p dir : Text}
    (hrooted : isAbsolute p = isAbsolute dir)
    (hsegments : segments p = segments dir ++ names)
    (hnames : LeadsDown names) :
    clean p = ofSegments (isAbsolute dir) (reduced dir ++ names) := by
  rw [clean_eq_ofSegments, reduced, hrooted, hsegments,
    reduce_append _ _ hnames.up_notMem]
  rfl

theorem ofSegments_false (h : ∀ s ∈ ss, IsSegment s) (hne : ss ≠ []) :
    ofSegments false ss = Text.join "/" ss := by
  have hbody : Text.join "/" ss ≠ [] := by
    intro hnil
    rw [← segments_join h, hnil] at hne
    exact hne rfl
  simp [ofSegments, hbody]

theorem isSegment_of_mem_reduced_append {dir : Text}
    (h : ∀ s ∈ names, IsSegment s) :
    ∀ s ∈ reduced dir ++ names, IsSegment s := by
  intro s hs
  rcases List.mem_append.1 hs with hs | hs
  · exact isSegment_of_mem_reduced hs
  · exact h s hs

theorem join_cons_eq_ofSegments (dir : Text) (hnames : LeadsDown names) :
    join (dir :: names) =
    ofSegments (isAbsolute dir) (reduced dir ++ names) := by
  have hkept : names.filter (fun p => !p.isEmpty) = names := by
    rw [List.filter_eq_self]
    intro s hs
    simpa using (hnames.isSegment s hs).nonempty
  obtain ⟨s, ss, rfl⟩ := List.exists_cons_of_ne_nil hnames.nonempty
  by_cases hdir : dir = []
  · rw [hdir, join, List.filter_cons_of_neg (by simp), hkept]
    have hrooted : isAbsolute (Text.join "/" (s :: ss)) = isAbsolute [] := by
      rw [← ofSegments_false hnames.isSegment hnames.nonempty]
      exact isAbsolute_ofSegments hnames.isSegment false
    exact clean_eq_of_segments_eq hrooted
      (segments_join hnames.isSegment) hnames
  · rw [join, List.filter_cons_of_pos (by simpa using hdir), hkept]
    change clean (Text.join "/" (dir :: s :: ss)) = _
    rw [Text.join_slash_cons_cons]
    apply clean_eq_of_segments_eq (isAbsolute_append hdir _) _ hnames
    rw [segments_append, segments_join hnames.isSegment]

theorem isAbsolute_join_cons (dir : Text) (hnames : LeadsDown names) :
    isAbsolute (join (dir :: names)) = isAbsolute dir := by
  rw [join_cons_eq_ofSegments dir hnames]
  exact isAbsolute_ofSegments (isSegment_of_mem_reduced_append hnames.isSegment)
    _

theorem segments_join_cons (dir : Text) (hnames : LeadsDown names) :
    segments (join (dir :: names)) = reduced dir ++ names := by
  rw [join_cons_eq_ofSegments dir hnames]
  exact segments_ofSegments (isSegment_of_mem_reduced_append hnames.isSegment) _

theorem join_cons_ne_nil (dir : Text) (hnames : LeadsDown names) :
    join (dir :: names) ≠ [] := by
  intro hnil
  have hsegments := segments_join_cons dir hnames
  rw [hnil] at hsegments
  exact hnames.nonempty (List.append_eq_nil_iff.1 hsegments.symm).2

theorem reduced_join_cons (dir : Text) (hnames : LeadsDown names) :
    reduced (join (dir :: names)) = reduced dir ++ names := by
  rw [reduced, isAbsolute_join_cons dir hnames, segments_join_cons dir hnames,
    reduce_append _ _ hnames.up_notMem]
  exact congrArg (· ++ names) (reduce_reduce _ _)

/-- Names below a path that names were added to are added to them. -/
theorem join_join_cons (dir : Text) {names' : List Text}
    (hnames : LeadsDown names) (hnames' : LeadsDown names') :
    join (join (dir :: names) :: names') = join (dir :: (names ++ names')) := by
  rw [join_cons_eq_ofSegments _ hnames', isAbsolute_join_cons dir hnames,
    reduced_join_cons dir hnames, List.append_assoc,
    ← join_cons_eq_ofSegments dir (hnames.append hnames')]

theorem join_slash_append (hss : ss ≠ []) (hnames : names ≠ []) :
    Text.join "/" (ss ++ names) = Text.join "/" ss ++ slash ::
    Text.join "/" names := by
  obtain ⟨n, ns, rfl⟩ := List.exists_cons_of_ne_nil hnames
  induction ss with
  | nil => exact absurd rfl hss
  | cons s ss ih =>
    cases ss with
    | nil => exact Text.join_slash_cons_cons s n ns
    | cons q qs =>
      rw [List.cons_append, List.cons_append, Text.join_slash_cons_cons,
        ← List.cons_append, ih (List.cons_ne_nil q qs),
        Text.join_slash_cons_cons, List.append_assoc, List.cons_append]

/-- A path through further segments begins with the path before them and a
slash. -/
theorem startsWith_ofSegments_append (h : ∀ s ∈ ss ++ names, IsSegment s)
    (hss : ss ≠ []) (hnames : names ≠ []) (rooted : Bool) :
    Text.startsWith (ofSegments rooted (ss ++ names))
      (ofSegments rooted ss ++ "/") = true := by
  have hall : ofSegments rooted (ss ++ names) = ofSegments rooted ss ++ "/" ++
      Text.join "/" names := by
    cases rooted with
    | true =>
      change slash :: Text.join "/" (ss ++ names) = _
      rw [join_slash_append hss hnames, List.append_assoc]
      rfl
    | false =>
      rw [ofSegments_false h (by simp [hss]),
        ofSegments_false (fun s hs => h s (by simp [hs])) hss,
        join_slash_append hss hnames, List.append_assoc]
      rfl
  rw [hall]
  exact Text.startsWith_append _ _

end Path

namespace FileSystem

variable {fs : FileSystem} {path dir : Text} {names ss : List Text}

/-! ## Where a directory is -/

/-- The path of a directory as the file system reads it. -/
def fullPath (fs : FileSystem) (dir : Text) : Text :=
  match fs.dialect with
  | .memory => dir
  | .host cwd => if Path.isAbsolute dir then dir else cwd ++ "/" ++ dir

/-- The segments that lead to a directory. -/
def row (fs : FileSystem) (dir : Text) : List Text :=
  Path.reduced (fs.fullPath dir)

/-- The place that a row of names leads to from a directory. -/
def under (fs : FileSystem) (dir : Text) (names : List Text) : Text :=
  Path.ofSegments (Path.isAbsolute (fs.fullPath dir)) (fs.row dir ++ names)

/-- A store in memory has no place for the directory that relative paths start
at but the root. -/
theorem locate_cases (fs : FileSystem) (path : Text) :
    fs.locate path = fs.under path [] ∨ fs.locate path = "/" ∧
    fs.row path = [] := by
  have hunder : fs.under path [] = Path.clean (fs.fullPath path) := by
    rw [under, List.append_nil]
    rfl
  rw [hunder]
  unfold locate row fullPath
  cases fs.dialect with
  | memory =>
    dsimp only
    by_cases hdot : Path.clean path = "."
    · right
      rw [← Path.segments_clean, hdot]
      exact ⟨rfl, rfl⟩
    · left
      rw [beq_eq_false_iff_ne.2 hdot]
      rfl
  | host cwd =>
    left
    dsimp only
    split
    · rfl
    · rfl

theorem exists_locate_eq (fs : FileSystem) (path : Text) :
    ∃ rooted, fs.locate path = Path.ofSegments rooted (fs.row path) := by
  rcases fs.locate_cases path with hlocate | ⟨hlocate, hrow⟩
  · rw [hlocate, under, List.append_nil]
    exact ⟨_, rfl⟩
  · rw [hlocate, hrow]
    exact ⟨true, rfl⟩

theorem locate_of_row_ne_nil (h : fs.row path ≠ []) :
    fs.locate path = fs.under path [] := by
  rcases fs.locate_cases path with hlocate | ⟨-, hnil⟩
  · exact hlocate
  · exact absurd hnil h

theorem isSegment_of_mem_row :
    ∀ s ∈ fs.row dir, Path.IsSegment s :=
  fun _ hs => Path.isSegment_of_mem_reduced hs

theorem segments_locate (fs : FileSystem) (path : Text) :
    Path.segments (fs.locate path) = fs.row path := by
  obtain ⟨rooted, hlocate⟩ := fs.exists_locate_eq path
  rw [hlocate, Path.segments_ofSegments isSegment_of_mem_row]

theorem reduced_relative (cwd : Text) (hdir : Path.isAbsolute dir = false)
    (hnames : Path.LeadsDown names) :
    Path.reduced (cwd ++ "/" ++ Path.join (dir :: names)) =
      Path.reduced (cwd ++ "/" ++ dir) ++ names := by
  have hrooted : ∀ t : Text, Path.isAbsolute (cwd ++ "/" ++ t) =
    Path.isAbsolute (cwd ++ "/") :=
    fun t =>
      Path.isAbsolute_append
        (List.append_ne_nil_of_right_ne_nil cwd (by decide)) t
  have hsegments : ∀ t : Text, Path.segments (cwd ++ "/" ++ t) =
      Path.segments cwd ++ Path.segments t := by
    intro t
    rw [List.append_assoc]
    exact Path.segments_append cwd t
  have hdone : Path.reduced dir = Path.reduce false (Path.segments dir) := by
    rw [Path.reduced, hdir]
  rw [Path.reduced, Path.reduced, hrooted, hrooted, hsegments, hsegments,
    Path.segments_join_cons dir hnames, ← List.append_assoc,
    Path.reduce_append _ _ hnames.up_notMem, hdone, Path.reduce_append_reduce]

theorem row_join_cons (fs : FileSystem) (dir : Text)
    (hnames : Path.LeadsDown names) :
    fs.row (Path.join (dir :: names)) = fs.row dir ++ names := by
  unfold row fullPath
  rw [Path.isAbsolute_join_cons dir hnames]
  cases fs.dialect with
  | memory => exact Path.reduced_join_cons dir hnames
  | host cwd =>
    dsimp only
    cases hdir : Path.isAbsolute dir with
    | true => exact Path.reduced_join_cons dir hnames
    | false => exact reduced_relative cwd hdir hnames

theorem isAbsolute_fullPath_join_cons (fs : FileSystem) (dir : Text)
    (hnames : Path.LeadsDown names) :
    Path.isAbsolute (fs.fullPath (Path.join (dir :: names))) =
      Path.isAbsolute (fs.fullPath dir) := by
  unfold fullPath
  rw [Path.isAbsolute_join_cons dir hnames]
  cases fs.dialect with
  | memory => exact Path.isAbsolute_join_cons dir hnames
  | host cwd =>
    dsimp only
    have hcwd : (cwd ++ "/" : Text) ≠ [] :=
      List.append_ne_nil_of_right_ne_nil cwd (by decide)
    split
    · exact Path.isAbsolute_join_cons dir hnames
    · rw [Path.isAbsolute_append hcwd, Path.isAbsolute_append hcwd]

/-- The names below a directory lead to the place under it. -/
theorem locate_join_cons (fs : FileSystem) (dir : Text)
    (hnames : Path.LeadsDown names) :
    fs.locate (Path.join (dir :: names)) = fs.under dir names := by
  have hrow := fs.row_join_cons dir hnames
  rcases fs.locate_cases (Path.join (dir :: names)) with hlocate | ⟨-, hnil⟩
  · rw [hlocate, under, under, List.append_nil, hrow,
      fs.isAbsolute_fullPath_join_cons dir hnames]
  · rw [hrow] at hnil
    exact absurd (List.append_eq_nil_iff.1 hnil).2 hnames.nonempty

theorem segments_under (fs : FileSystem) (dir : Text)
    (hnames : ∀ s ∈ names, Path.IsSegment s) :
    Path.segments (fs.under dir names) = fs.row dir ++ names :=
  Path.segments_ofSegments (Path.isSegment_of_mem_reduced_append hnames) _

theorem eq_of_under_eq {names' : List Text}
    (hnames : ∀ s ∈ names, Path.IsSegment s)
    (hnames' : ∀ s ∈ names', Path.IsSegment s)
    (h : fs.under dir names = fs.under dir names') :
    names = names' := by
  have hsegments := congrArg Path.segments h
  rw [segments_under fs dir hnames, segments_under fs dir hnames'] at hsegments
  exact List.append_cancel_left hsegments

/-! ## The way to a place -/

/-- The directories that lead to a place, and the place. -/
def way (key : Text) : List Text :=
  ancestors key ++ [key]

theorem ancestors_ofSegments (h : ∀ s ∈ ss, Path.IsSegment s) (rooted : Bool) :
    ancestors (Path.ofSegments rooted ss) =
      (List.range ss.length).map fun n =>
      Path.ofSegments rooted (ss.take n) := by
  unfold ancestors
  dsimp only
  rw [Path.segments_ofSegments h, Path.isAbsolute_ofSegments h]
  apply List.map_congr_left
  intro n hn
  have htake : ∀ s ∈ ss.take n, Path.IsSegment s := fun s hs =>
    h s (List.mem_of_mem_take hs)
  by_cases hzero : n = 0
  · rw [hzero]
    cases rooted with
    | true => rfl
    | false => rfl
  · have hne : ss.take n ≠ [] := by
      have hlength : n < ss.length := List.mem_range.1 hn
      rw [ne_eq, List.take_eq_nil_iff, not_or]
      refine ⟨hzero, ?_⟩
      rintro rfl
      cases hlength
    rw [if_neg hzero]
    cases rooted with
    | true => rfl
    | false => exact (Path.ofSegments_false htake hne).symm

theorem way_ofSegments (h : ∀ s ∈ ss, Path.IsSegment s) (rooted : Bool) :
    way (Path.ofSegments rooted ss) =
      (List.range (ss.length + 1)).map fun n =>
      Path.ofSegments rooted (ss.take n) := by
  rw [way, ancestors_ofSegments h, List.range_succ, List.map_append,
    List.map_singleton, List.take_length]

/-- The directories that lead to a place further down are the way to the
directory that it is in. -/
theorem ancestors_ofSegments_concat {s : Text}
    (h : ∀ t ∈ ss ++ [s], Path.IsSegment t) (rooted : Bool) :
    ancestors (Path.ofSegments rooted (ss ++ [s])) =
      way (Path.ofSegments rooted ss) := by
  rw [ancestors_ofSegments h, way_ofSegments fun t ht =>
    h t (List.mem_append_left [s] ht), List.length_append]
  apply List.map_congr_left
  intro n hn
  rw [List.take_append_of_le_length (Nat.lt_succ_iff.1 (List.mem_range.1 hn))]

theorem length_segments_of_mem_way {p : Text} (h : p ∈ way (fs.locate path)) :
    (Path.segments p).length ≤ (fs.row path).length := by
  obtain ⟨rooted, hlocate⟩ := fs.exists_locate_eq path
  rw [hlocate, way_ofSegments isSegment_of_mem_row, List.mem_map] at h
  obtain ⟨n, -, rfl⟩ := h
  rw [Path.segments_ofSegments fun s hs =>
    isSegment_of_mem_row s (List.mem_of_mem_take hs)]
  exact List.length_take_le' n _

/-! ## Directories that are made -/

/-- No file stands on the way to a place, or there. -/
def Passable (fs : FileSystem) (key : Text) : Prop :=
  ∀ p ∈ way key, fs.fileAt p = false

instance (fs : FileSystem) (key : Text) : Decidable (fs.Passable key) :=
  inferInstanceAs (Decidable (∀ p ∈ way key, fs.fileAt p = false))

theorem lookup_eq_directory {key : Text} (hfile : fs.fileAt key = false)
    (hsome : (fs.nodes.lookup key).isSome = true) :
    fs.nodes.lookup key = some .directory := by
  obtain ⟨n, hn⟩ := Option.isSome_iff_exists.1 hsome
  rw [fileAt, hn] at hfile
  cases n with
  | directory => exact hn
  | file content => cases hfile

theorem fileAt_eq_false_of_lookup {fs' : FileSystem} {key : Text}
    (hlookup : fs'.nodes.lookup key = none ∨ fs'.nodes.lookup key =
      fs.nodes.lookup key)
    (hfile : fs.fileAt key = false) :
    fs'.fileAt key = false := by
  rcases hlookup with hlookup | hlookup
  · rw [fileAt, hlookup]
  · rw [fileAt, hlookup]
    exact hfile

theorem lookup_passBy (fs : FileSystem) (p k : Text) :
    (fs.passBy p).nodes.lookup k =
    (fs.nodes.lookup k).or (if k = p then some .directory else none) := by
  unfold passBy
  by_cases hp : (fs.nodes.lookup p).isSome = true
  · rw [if_pos hp]
    by_cases hk : k = p
    · rw [hk, Option.or_of_isSome hp]
    · rw [if_neg hk, Option.or_none]
  · rw [if_neg hp]
    simp [lookup_append_singleton]

theorem lookup_foldl_passBy (fs : FileSystem) (ps : List Text) (k : Text) :
    (ps.foldl passBy fs).nodes.lookup k =
      (fs.nodes.lookup k).or (if k ∈ ps then some .directory else none) := by
  induction ps generalizing fs with
  | nil => simp
  | cons p ps ih =>
    rw [List.foldl_cons, ih, lookup_passBy, Option.or_assoc]
    by_cases hk : k = p
    · simp [hk]
    · simp [hk]

theorem exists_foldl_passBy_eq (fs : FileSystem) (ps : List Text) :
    ∃ nodes, ps.foldl passBy fs = { fs with nodes := nodes } := by
  apply List.foldlRecOn (motive := fun made => ∃ nodes, made = { fs with
      nodes := nodes }) ps passBy
    ⟨fs.nodes, rfl⟩
  rintro _ ⟨nodes, rfl⟩ p -
  unfold passBy
  split
  · exact ⟨nodes, rfl⟩
  · exact ⟨_, rfl⟩

theorem lookup_makeParents (fs : FileSystem) (path k : Text) :
    (fs.makeParents path).nodes.lookup k =
      (fs.nodes.lookup k).or
      (if k ∈ ancestors (fs.locate path) then some .directory else none) :=
  fs.lookup_foldl_passBy _ k

theorem fileAt_makeParents (fs : FileSystem) (path k : Text) :
    (fs.makeParents path).fileAt k = fs.fileAt k := by
  rw [fileAt, fileAt, lookup_makeParents]
  cases fs.nodes.lookup k with
  | some n => rfl
  | none =>
    by_cases hk : k ∈ ancestors (fs.locate path)
    · rw [if_pos hk]
      rfl
    · rw [if_neg hk]
      rfl

/-- Only the table changes when directories are made. -/
theorem exists_makeDirectory_eq (fs : FileSystem) (path : Text) :
    ∃ nodes, fs.makeDirectory path = { fs with nodes := nodes } := by
  obtain ⟨nodes, hparents⟩ :=
    fs.exists_foldl_passBy_eq (ancestors (fs.locate path))
  change fs.makeParents path = _ at hparents
  unfold makeDirectory
  rw [hparents]
  dsimp only
  split
  · exact ⟨nodes, rfl⟩
  · exact ⟨_, rfl⟩

theorem locate_makeParents (fs : FileSystem) (path : Text) :
    (fs.makeParents path).locate = fs.locate := by
  obtain ⟨nodes, hparents⟩ :=
    fs.exists_foldl_passBy_eq (ancestors (fs.locate path))
  change fs.makeParents path = _ at hparents
  rw [hparents]
  rfl

/-- A way without files is one of directories once they are made. -/
theorem lookup_makeDirectory_of_mem {k : Text}
    (h : fs.Passable (fs.locate path)) (hk : k ∈ way (fs.locate path)) :
    (fs.makeDirectory path).nodes.lookup k = some .directory := by
  have hnone : (fs.makeParents path).fileAt k = false :=
    (fs.fileAt_makeParents path k).trans (h k hk)
  have hparent : k ∈ ancestors (fs.locate path) →
      (fs.makeParents path).nodes.lookup k = some .directory := by
    intro hmem
    apply lookup_eq_directory hnone
    rw [lookup_makeParents, if_pos hmem]
    simp
  rw [way, List.mem_append, List.mem_singleton] at hk
  unfold makeDirectory
  dsimp only
  split
  next hthere =>
    rcases hk with hk | hk
    · exact hparent hk
    · apply lookup_eq_directory hnone
      unfold node? at hthere
      split at hthere
      · cases hthere
      · rwa [locate_makeParents, ← hk] at hthere
  next =>
    rw [lookup_put, locate_makeParents]
    split
    · rfl
    next hne => exact hparent (hk.resolve_right (by simpa using hne))

theorem lookup_makeDirectory_of_notMem {k : Text}
    (hk : k ∉ way (fs.locate path)) :
    (fs.makeDirectory path).nodes.lookup k = fs.nodes.lookup k := by
  rw [way, List.mem_append, List.mem_singleton, not_or] at hk
  have hparents : (fs.makeParents path).nodes.lookup k = fs.nodes.lookup k := by
    rw [lookup_makeParents, if_neg hk.1, Option.or_none]
  unfold makeDirectory
  dsimp only
  split
  · exact hparents
  · rw [lookup_put, locate_makeParents, if_neg (by simpa using hk.2), hparents]

theorem ensureDirectory_eq_ok_iff {made : FileSystem} :
    fs.ensureDirectory path = .ok made ↔
      .makeDirectory ∉ fs.failing ∧ fs.Passable (fs.locate path) ∧
      made = fs.makeDirectory path := by
  unfold ensureDirectory
  by_cases hfault : FileChange.makeDirectory ∈ fs.failing
  · simp [hfault]
  · have hpassable : (way (fs.locate path)).find? fs.fileAt = none ↔
        fs.Passable (fs.locate path) := by
      simp [Passable, List.find?_eq_none]
    rw [if_neg (by simpa using hfault), ← hpassable, way]
    dsimp only
    split
    next p hfound => simp [hfound]
    next hnone => simp [hnone, hfault, eq_comm]

/-! ## Directories that are removed -/

theorem lookup_removeAll (fs : FileSystem) (dir k : Text) :
    (fs.removeAll dir).nodes.lookup k =
      if k != fs.locate dir &&
      !Text.startsWith k (if (fs.row dir).isEmpty then []
      else fs.locate dir ++ "/")
      then fs.nodes.lookup k else none := by
  rw [← segments_locate]
  exact lookup_filter fs.nodes (fun a => a != fs.locate dir &&
    !Text.startsWith a _) k

theorem lookup_removeAll_cases (fs : FileSystem) (dir k : Text) :
    (fs.removeAll dir).nodes.lookup k = none ∨
    (fs.removeAll dir).nodes.lookup k = fs.nodes.lookup k := by
  rw [lookup_removeAll]
  exact (ite_eq_or_eq _ _ _).symm

theorem lookup_removeAll_of_row_eq_nil (h : fs.row dir = []) (k : Text) :
    (fs.removeAll dir).nodes.lookup k = none := by
  simp [lookup_removeAll, h, Text.startsWith, Text.stripFront?]

theorem lookup_removeAll_under (fs : FileSystem) (dir : Text)
    (hnames : Path.LeadsDown names) :
    (fs.removeAll dir).nodes.lookup (fs.under dir names) = none := by
  by_cases hrow : fs.row dir = []
  · exact lookup_removeAll_of_row_eq_nil hrow _
  · have hstarts : Text.startsWith (fs.under dir names) (fs.locate dir ++ "/") =
        true := by
      rw [locate_of_row_ne_nil hrow, under, under, List.append_nil]
      exact Path.startsWith_ofSegments_append
        (Path.isSegment_of_mem_reduced_append hnames.isSegment) hrow
        hnames.nonempty _
    simp [lookup_removeAll, hrow, hstarts]

end FileSystem

end ProtocolCorpus
