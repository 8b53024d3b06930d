import ProtocolCorpus.Manifest
import ProtocolCorpus.Proofs.Parts
import ProtocolCorpus.Proofs.Places
import ProtocolCorpus.Proofs.RelativePaths

/-!
# What stays below a directory

To walk along a path is to enter its pieces one after the other: `..` leaves the
directory that one is in, an empty piece and `.` stay there, and a name goes
down. A clean path leads to the same place as the path that it was made of, from
everywhere. So what becomes of a path can be said by where it leads: the
identity of a document leads down to the document, and the root of a corpus is
accepted exactly if it leads to the directory of the manifest or to a place
below it.
-/

namespace ProtocolCorpus

namespace Text

theorem head?_splitOn_eq_up_iff {t : Text} :
    (splitOn Path.slash t).head? = some Path.up ↔
    (t == ".." || startsWith t "../") = true := by
  rw [Bool.or_eq_true, beq_iff_eq]
  constructor
  · intro hup
    obtain ⟨ps, hsplit⟩ := List.head?_eq_some_iff.1 hup
    have ht := join_splitOn_singleton Path.slash t
    rw [hsplit] at ht
    cases ps with
    | nil => exact .inl ht.symm
    | cons q qs =>
      rw [join_singleton_cons_cons] at ht
      rw [← ht]
      exact .inr (startsWith_append "../" (join "/" (q :: qs)))
  · rintro (rfl | hclimb)
    · rfl
    · obtain ⟨rest, hrest⟩ := Option.isSome_iff_exists.1 hclimb
      rw [stripFront?_eq_some_iff.1 hrest]
      exact congrArg List.head? (splitOn_append Path.slash Path.up rest)

end Text

namespace Path

variable {dir p target : Text}

/-! ## Walking along a path -/

/-- Where one piece of a path leads. Above the root there is nothing, so `..`
stays there. -/
def enter (place : List Text) (s : Text) : List Text :=
  if s = ".." then place.dropLast
  else if s = [] ∨ s = "." then place
  else place ++ [s]

/-- Where a path leads from a place, one piece after the other. A path from the
root leads to the same place from everywhere. -/
def walk (place : List Text) (p : Text) : List Text :=
  (Text.splitOn slash p).foldl enter (if isAbsolute p then [] else place)

theorem enter_up (place : List Text) :
    enter place up = place.dropLast :=
  if_pos rfl

theorem IsName.enter_eq
    {s : Text} (h : IsName s) (place : List Text) :
    enter place s = place ++ [s] := by
  rw [enter, if_neg h.ne_up, if_neg (not_or.2 ⟨h.nonempty, h.ne_dot⟩)]

theorem foldl_enter_names
    {names : List Text} (h : ∀ s ∈ names, IsName s) (place : List Text) :
    names.foldl enter place = place ++ names := by
  induction names generalizing place with
  | nil => rw [List.append_nil]; rfl
  | cons s names ih =>
    obtain ⟨hs, hnames⟩ := List.forall_mem_cons.1 h
    rw [List.foldl_cons, hs.enter_eq, ih hnames, List.append_assoc,
      List.singleton_append]

/-- The pieces that are no segments lead nowhere. -/
theorem foldl_enter_segments (p : Text) (place : List Text) :
    (segments p).foldl enter place =
    (Text.splitOn slash p).foldl enter place := by
  have hstay : ∀ (place : List Text) (s : Text),
      (if !(s.isEmpty || s == ".") then enter place s else place) =
      enter place s := by
    intro place s
    by_cases hs : s = [] ∨ s = "."
    · have hup : s ≠ ".." := by
        rintro rfl
        revert hs
        decide
      rw [enter, if_neg hup, if_pos hs, ite_self]
    · rw [if_pos (by simpa [not_or] using hs)]
  rw [segments, List.foldl_filter]
  simp only [hstay]

theorem walk_eq_foldl (place : List Text) (p : Text) :
    walk place p = (segments p).foldl enter (if isAbsolute p then []
    else place) := by
  rw [foldl_enter_segments, walk]

/-- One segment more on the stack is one step more on the way. -/
theorem foldl_enter_push
    {rooted : Bool} {stack place : List Text}
    (hplace : rooted = true → place = []) (hstack : ∀ t ∈ stack, IsSegment t)
    (s : Text) :
    (push rooted stack s).reverse.foldl enter place =
      enter (stack.reverse.foldl enter place) s := by
  have hkept : (s :: stack).reverse.foldl enter place =
      enter (stack.reverse.foldl enter place) s := by
    rw [List.reverse_cons, List.foldl_concat]
  unfold push
  split
  next hs =>
    rw [beq_iff_eq] at hs
    cases stack with
    | nil =>
      cases rooted with
      | true =>
        rw [hplace rfl, hs]
        rfl
      | false => exact hkept
    | cons top rest =>
      dsimp only
      split
      next => exact hkept
      next htop =>
        -- the step up takes back the step down that stands before it
        have hname : IsName top :=
          ⟨hstack top List.mem_cons_self, by simpa using htop⟩
        rw [List.reverse_cons, List.foldl_concat, hname.enter_eq, hs, enter_up,
          List.dropLast_concat]
  next => exact hkept

theorem foldl_enter_reduce
    {rooted : Bool} {place : List Text} (hplace : rooted = true → place = [])
    {segs : List Text} (hsegs : ∀ s ∈ segs, IsSegment s) :
    (reduce rooted segs).foldl enter place = segs.foldl enter place := by
  induction segs using List.reverseRecOn with
  | nil => rfl
  | append_singleton segs s ih =>
    obtain ⟨hsegs, -⟩ := List.forall_mem_append.1 hsegs
    have hstack : ∀ t ∈ (reduce rooted segs).reverse, IsSegment t := by
      intro t ht
      rw [reduce, List.reverse_reverse] at ht
      rcases mem_of_mem_foldl_push ht with ht | ht
      · exact hsegs t ht
      · cases ht
    rw [reduce_concat, foldl_enter_push hplace hstack, List.reverse_reverse,
      ih hsegs, List.foldl_concat]

theorem isAbsolute_clean (p : Text) :
    isAbsolute (clean p) = isAbsolute p :=
  isAbsolute_ofSegments (fun _ hs => isSegment_of_mem_reduced hs) _

/-- A clean path leads to the same place as the path that it was made of. -/
theorem walk_clean (place : List Text) (p : Text) :
    walk place (clean p) = walk place p := by
  rw [walk_eq_foldl, walk_eq_foldl, isAbsolute_clean, segments_clean, reduced]
  apply foldl_enter_reduce
  · intro hrooted
    rw [if_pos hrooted]
  · exact fun s hs => isSegment_of_mem_segments hs

theorem walk_append {t : Text} (hdir : dir ≠ []) (ht : isAbsolute t = false)
    (place : List Text) :
    walk place (dir ++ slash :: t) = walk (walk place dir) t := by
  simp only [walk, isAbsolute_append hdir, Text.splitOn_append,
    List.foldl_append, ht]
  rfl

/-- Above the root no step up is left. -/
theorem up_notMem_reduced (hp : isAbsolute p = true) :
    up ∉ reduced p := by
  obtain ⟨k, down, hreduced, hdown, hk⟩ :=
    exists_reduce_eq (isAbsolute p) (segments p)
  rw [hk hp, List.replicate_zero, List.nil_append] at hreduced
  rwa [reduced, hreduced]

theorem isName_of_mem_reduced (hp : isAbsolute p = true) :
    ∀ s ∈ reduced p, IsName s := by
  intro s hs
  refine ⟨isSegment_of_mem_reduced hs, ?_⟩
  rintro rfl
  exact up_notMem_reduced hp hs

/-- The segments of a clean path from the root are the place that it leads to.
-/
theorem segments_clean_eq_walk (hp : isAbsolute p = true) (place : List Text) :
    segments (clean p) = walk place p := by
  rw [← walk_clean, walk_eq_foldl, isAbsolute_clean, if_pos hp, segments_clean,
    foldl_enter_names (isName_of_mem_reduced hp), List.nil_append]

/-! ## Below a directory -/

theorem head?_splitOn_ofSegments_eq_up_iff
    {ss : List Text} (h : ∀ s ∈ ss, IsSegment s) :
    (Text.splitOn slash (ofSegments false ss)).head? = some up ↔
      ss.head? = some up := by
  by_cases hne : ss = []
  · rw [hne]
    decide
  · have hpieces : Text.splitOn slash (Text.join "/" ss) = ss :=
      Text.splitOn_join_singleton hne fun s hs => (h s hs).slash_notMem
    rw [ofSegments_false h hne, hpieces]

theorem dropCommon_fst_eq_nil_iff {as bs : List Text} :
    (dropCommon as bs).1 = [] ↔ as <+: bs := by
  induction as generalizing bs with
  | nil => simp [dropCommon]
  | cons a as ih =>
    cases bs with
    | nil => simp [dropCommon]
    | cons b bs =>
      rw [dropCommon, List.cons_prefix_cons]
      by_cases hab : a = b
      · rw [if_pos hab, ih]
        simp [hab]
      · simp [hab]

theorem isSegment_of_mem_steps :
    ∀ s ∈ Resolution.steps (reduced dir) (reduced target), IsSegment s := by
  intro s hs
  rcases List.mem_append.1 hs with hup | hdown
  · obtain ⟨-, -, rfl⟩ := List.mem_map.1 hup
    exact ⟨by decide, by decide, by decide⟩
  · obtain ⟨common, -, htarget⟩ :=
      exists_dropCommon_eq (reduced dir) (reduced target)
    apply isSegment_of_mem_reduced (p := target)
    rw [htarget]
    exact List.mem_append_right common hdown

/-- From one path to another lead the steps up to what they share and the names
behind it. -/
theorem relative?_eq_some (hdir : isAbsolute dir = true)
    (htarget : isAbsolute target = true) :
    relative? dir target =
      some (ofSegments false
      (Resolution.steps (reduced dir) (reduced target))) := by
  obtain ⟨common, hleft, -⟩ :=
    exists_dropCommon_eq (reduced dir) (reduced target)
  have hnamed : (dropCommon (reduced dir) (reduced target)).1.head? ≠
      some up := by
    intro hup
    apply up_notMem_reduced hdir
    rw [hleft]
    exact List.mem_append_right common (List.mem_of_head? hup)
  rw [relative?, hdir, htarget]
  change (if (dropCommon (reduced dir) (reduced target)).1.head? == some up
    then none else _) = _
  rw [if_neg (by simpa using hnamed)]
  split
  next hnone =>
    have hsteps : Resolution.steps (reduced dir) (reduced target) = [] := hnone
    rw [hsteps]
    rfl
  next hsome =>
    have hsteps : Resolution.steps (reduced dir) (reduced target) ≠ [] := hsome
    rw [ofSegments_false isSegment_of_mem_steps hsteps]
    rfl

/-- Of two paths from the root, one is within the other exactly if the way to it
begins with the way to the other. -/
theorem isWithin_iff_isPrefix (hdir : isAbsolute dir = true)
    (htarget : isAbsolute target = true) :
    isWithin dir target = true ↔ reduced dir <+: reduced target := by
  have hwithin : isWithin dir target = true ↔
      (Resolution.steps (reduced dir) (reduced target)).head? ≠ some up := by
    rw [isWithin, relative?_eq_some hdir htarget]
    dsimp only
    rw [bne, ← Bool.not_or, Bool.not_eq_true', ← Bool.not_eq_true,
      ← Text.head?_splitOn_eq_up_iff,
      head?_splitOn_ofSegments_eq_up_iff isSegment_of_mem_steps]
  rw [hwithin, ← dropCommon_fst_eq_nil_iff, Resolution.steps]
  obtain ⟨common, -, hentered⟩ :=
    exists_dropCommon_eq (reduced dir) (reduced target)
  cases hleft : (dropCommon (reduced dir) (reduced target)).1 with
  | nil =>
    refine iff_of_true ?_ rfl
    intro hup
    apply up_notMem_reduced htarget
    rw [hentered]
    exact List.mem_append_right common (List.mem_of_head? hup)
  | cons s left => simp

end Path

/-! ## Identities of documents -/

namespace Corpus

theorem identity_clean (path : Text) :
    identity (Path.clean path) = identity path := by
  rw [identity, identity, Path.clean_clean]

theorem eq_clean_of_identity
    {path id : Text} (h : identity path = .ok id) :
    id = Path.clean path := by
  unfold identity at h
  dsimp only at h
  split at h
  next => cases h
  next =>
    split at h
    next => cases h
    next => exact (Except.ok.inj h).symm

theorem exists_identity_eq_error_iff {path : Text} :
    (∃ e, identity path = .error e) ↔
      Path.clean path = "." ∨ Path.isAbsolute (Path.clean path) = true ∨
        (Text.splitOn Path.slash (Path.clean path)).head? = some Path.up := by
  rw [Text.head?_splitOn_eq_up_iff]
  unfold identity
  dsimp only
  split
  next hdot => exact iff_of_true ⟨_, rfl⟩ (.inl (beq_iff_eq.1 hdot))
  next hdot =>
    rw [beq_iff_eq] at hdot
    split
    next houtside =>
      refine iff_of_true ⟨_, rfl⟩ (.inr ?_)
      rwa [Bool.or_eq_true, or_comm] at houtside
    next hinside =>
      rw [Bool.or_eq_true, or_comm] at hinside
      exact iff_of_false (fun ⟨_, h⟩ => nomatch h) (not_or.2 ⟨hdot, hinside⟩)

theorem IsIdentity.splitOn_eq_segments
    {id : Text} (h : IsIdentity id) :
    Text.splitOn Path.slash id = Path.segments id := by
  have hne : Path.segments id ≠ [] := by
    intro hnil
    apply h.nonempty
    rw [← h.join_segments, hnil]
    rfl
  calc
    Text.splitOn Path.slash id =
      Text.splitOn Path.slash (Text.join "/" (Path.segments id)) := by
      rw [h.join_segments]
    _ = Path.segments id :=
      Text.splitOn_join_singleton hne fun s hs =>
        (Path.isSegment_of_mem_segments hs).slash_notMem

theorem IsIdentity.isName
    {id : Text} (h : IsIdentity id) :
    ∀ s ∈ Path.segments id, Path.IsName s := by
  intro s hs
  refine ⟨Path.isSegment_of_mem_segments hs, ?_⟩
  rintro rfl
  exact h.descends hs

/-- What an identity is to the path that it was made of. -/
structure Identifies (id path : Text) : Prop where
  nonempty : id ≠ []
  relative : Path.isAbsolute id = false
  named : ∀ s ∈ Text.splitOn Path.slash id, s ≠ [] ∧ s ≠ "." ∧ s ≠ ".."
  /-- From wherever one starts, the identity leads where the path leads. -/
  walk_eq : ∀ place, Path.walk place id = Path.walk place path
  /-- That is below the start, through the pieces of the identity. -/
  walk_eq_append : ∀ place, Path.walk place path =
    place ++ Text.splitOn Path.slash id
  again : identity id = .ok id

/-- A path has an identity unless its clean form is `.`, starts at the root or
begins with a step up. The identity leads down to the same place through names
only, and is its own identity. -/
theorem canonical_identity (path : Text) :
    (∀ id, identity path = .ok id → Identifies id path) ∧
      ((∃ e, identity path = .error e) ↔
        Path.clean path = "." ∨ Path.isAbsolute (Path.clean path) = true ∨
          (Text.splitOn Path.slash (Path.clean path)).head? =
          some (".." : Text)) := by
  refine ⟨?_, exists_identity_eq_error_iff⟩
  intro id h
  have hid : IsIdentity id := isIdentity_of_identity h
  have hclean : id = Path.clean path := eq_clean_of_identity h
  have hrelative : Path.isAbsolute id = false := by
    rw [hclean, ← Bool.not_eq_true]
    intro hrooted
    obtain ⟨e, he⟩ := exists_identity_eq_error_iff.2 (.inr (.inl hrooted))
    rw [h] at he
    cases he
  have hsame : ∀ place, Path.walk place id = Path.walk place path := by
    intro place
    rw [hclean, Path.walk_clean]
  constructor
  case nonempty => exact hid.nonempty
  case relative => exact hrelative
  case named =>
    intro s hs
    rw [hid.splitOn_eq_segments] at hs
    have hname := hid.isName s hs
    exact ⟨hname.nonempty, hname.ne_dot, hname.ne_up⟩
  case walk_eq => exact hsame
  case walk_eq_append =>
    intro place
    rw [← hsame, Path.walk_eq_foldl, hrelative, hid.splitOn_eq_segments,
      Path.foldl_enter_names hid.isName]
    rfl
  case again => rw [hclean, identity_clean, ← hclean, h]

/-- A way with detours, and one that leaves the corpus although it goes down
first. -/
theorem detour_identifies :
    identity "shell//./old/../..new/x.xml" = .ok "shell/..new/x.xml" ∧
      Identifies "shell/..new/x.xml" "shell//./old/../..new/x.xml" ∧
      ∃ e, identity "old/../../x.xml" = .error e := by
  have hok : identity "shell//./old/../..new/x.xml" =
      .ok (Text.ofString "shell/..new/x.xml") := by
    decide +kernel
  have hup : (Text.splitOn Path.slash (Path.clean "old/../../x.xml")).head? =
      some (Text.ofString "..") := by
    decide +kernel
  exact ⟨hok, (canonical_identity _).1 _ hok, (canonical_identity _).2.2
    (.inr (.inr hup))⟩

end Corpus

/-! ## The root of a corpus -/

namespace Manifest

section Root

variable {m : Manifest} (hrooted : Path.isAbsolute m.dir = true)
  (hclean : Path.clean m.dir = m.dir)

include hrooted hclean

/-- The directory of the corpus is where the root leads to from the directory of
the manifest. -/
theorem segments_join_root
    {root : Text} (hroot : Path.isAbsolute root = false) :
    Path.segments (Path.join [m.dir, Path.clean root]) =
      Path.walk (Path.segments m.dir) root := by
  have hdir : m.dir ≠ [] := hclean ▸ Path.clean_ne_nil m.dir
  have hfull : Path.isAbsolute (m.dir ++ Path.slash :: Path.clean root) =
      true := by
    rw [Path.isAbsolute_append hdir, hrooted]
  have hstart : Path.walk [] m.dir = Path.segments m.dir := by
    rw [← Path.segments_clean_eq_walk hrooted, hclean]
  rw [Path.join_pair hdir (Path.clean_ne_nil root),
    Path.segments_clean_eq_walk hfull [],
    Path.walk_append hdir (by rw [Path.isAbsolute_clean, hroot]), hstart,
    Path.walk_clean]

theorem isAbsolute_join_root (root : Text) :
    Path.isAbsolute (Path.join [m.dir, Path.clean root]) = true := by
  have hdir : m.dir ≠ [] := hclean ▸ Path.clean_ne_nil m.dir
  rw [Path.join_pair hdir (Path.clean_ne_nil root), Path.isAbsolute_clean,
    Path.isAbsolute_append hdir, hrooted]

theorem isWithin_join_root_iff
    {root : Text} (hroot : Path.isAbsolute root = false) :
    Path.isWithin m.dir (Path.join [m.dir, Path.clean root]) = true ↔
      Path.segments m.dir <+: Path.walk (Path.segments m.dir) root := by
  have hdir : m.dir ≠ [] := hclean ▸ Path.clean_ne_nil m.dir
  rw [Path.isWithin_iff_isPrefix hrooted
    (isAbsolute_join_root hrooted hclean root), ← Path.segments_clean,
    ← Path.segments_clean, hclean, Path.clean_join_cons hdir,
    segments_join_root hrooted hclean hroot]

end Root

/-- What is accepted as the directory of a corpus, and when. -/
structure Contains (m : Manifest) (r : Except RootError Text) : Prop where
  clean : ∀ p, r = .ok p → Path.clean p = p ∧ Path.isAbsolute p = true
  /-- It is the directory of the manifest or lies below it. -/
  isPrefix : ∀ p, r = .ok p → Path.segments m.dir <+: Path.segments p
  /-- It is where the root leads to from the directory of the manifest. -/
  place : ∀ p, r = .ok p → Path.segments p =
    Path.walk (Path.segments m.dir) (Text.trim m.root)
  fails_iff : (∃ e, r = .error e) ↔
    Text.trim m.root = [] ∨ Path.isAbsolute (Text.trim m.root) = true ∨
      ¬Path.segments m.dir <+: Path.walk (Path.segments m.dir)
      (Text.trim m.root)

/-- The root of a corpus does not lead out of the directory of its manifest: it
is accepted exactly if it says something, does not start at the root of all, and
leads to that directory or to a place below it. -/
theorem contains_corpusRoot
    {m : Manifest} (hrooted : Path.isAbsolute m.dir = true)
    (hclean : Path.clean m.dir = m.dir) :
    Contains m m.corpusRoot := by
  unfold corpusRoot
  dsimp only
  split
  next hempty =>
    have hnone : Text.trim m.root = [] := List.isEmpty_iff.1 hempty
    exact ⟨by simp, by simp, by simp, iff_of_true ⟨_, rfl⟩ (.inl hnone)⟩
  next hempty =>
    split
    next habsolute =>
      exact ⟨by simp, by simp, by simp,
        iff_of_true ⟨_, rfl⟩ (.inr (.inl habsolute))⟩
    next habsolute =>
      have hroot : Path.isAbsolute (Text.trim m.root) = false := by
        simpa using habsolute
      have hplace := segments_join_root hrooted hclean hroot
      have hwithin := isWithin_join_root_iff hrooted hclean hroot
      split
      next hinside =>
        have hdir : m.dir ≠ [] := hclean ▸ Path.clean_ne_nil m.dir
        have hprefix := hwithin.1 hinside
        constructor
        case clean =>
          rintro p ⟨rfl⟩
          exact ⟨Path.clean_join_cons hdir _,
            isAbsolute_join_root hrooted hclean _⟩
        case isPrefix =>
          rintro p ⟨rfl⟩
          rwa [hplace]
        case place =>
          rintro p ⟨rfl⟩
          exact hplace
        case fails_iff =>
          refine iff_of_false (fun ⟨_, h⟩ => nomatch h) ?_
          rintro (hnone | hstarts | hleaves)
          · exact hempty (List.isEmpty_iff.2 hnone)
          · exact habsolute hstarts
          · exact hleaves hprefix
      next houtside =>
        exact ⟨by simp, by simp, by simp,
          iff_of_true ⟨_, rfl⟩ (.inr (.inr (mt hwithin.2 houtside)))⟩

/-- A root that leaves the directory of the manifest and comes back, with blanks
around it. -/
def returning : Manifest :=
  { dir := "/home/same", root := " ../same//x/.. " }

/-- A root that leads to a directory with the same beginning. -/
def neighbour : Manifest :=
  { dir := "/home/same", root := "../same2" }

theorem contains_returning :
    returning.corpusRoot = .ok "/home/same" ∧
    Contains returning returning.corpusRoot ∧
      (∃ e, neighbour.corpusRoot = .error e) ∧
      Contains neighbour neighbour.corpusRoot := by
  have hok : returning.corpusRoot = .ok (Text.ofString "/home/same") := by
    decide +kernel
  have hneighbour := contains_corpusRoot (m := neighbour) (by decide +kernel)
    (by decide +kernel)
  refine ⟨hok, contains_corpusRoot (by decide +kernel) (by decide +kernel),
    ?_, hneighbour⟩
  exact hneighbour.fails_iff.2 (.inr (.inr (by decide +kernel)))

end Manifest

end ProtocolCorpus
