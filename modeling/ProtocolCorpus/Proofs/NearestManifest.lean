import Mathlib.Data.Nat.Init
import Mathlib.Order.Nat
import ProtocolCorpus.Proofs.Containment

/-!
# The nearest manifest

The search for a manifest climbs from a directory to the one above it, until a
manifest is found, the file system refuses an answer, or a directory is reached
that lies in no other one. It comes to an end, for every step leaves one
segment. The directories it may ask about are those whose segments begin the way
to the start; the deepest of them where anything else than "nothing there" is
answered decides.
-/

namespace ProtocolCorpus

namespace Path

variable {p a : Text} {ss : List Text}

/-! ## Directories above a directory -/

/-- A clean path from the root. -/
structure IsPlace (p : Text) : Prop where
  absolute : isAbsolute p = true
  clean : clean p = p

theorem isPlace_clean (hp : isAbsolute p = true) :
    IsPlace (clean p) :=
  ⟨by rw [isAbsolute_clean, hp], clean_clean p⟩

theorem IsPlace.segments_eq (h : IsPlace p) :
    segments p = reduced p := by
  rw [← segments_clean, h.clean]

theorem IsPlace.isName (h : IsPlace p) :
    ∀ s ∈ segments p, IsName s := by
  rw [h.segments_eq]
  exact isName_of_mem_reduced h.absolute

theorem IsPlace.eq_ofSegments (h : IsPlace p) :
    p = ofSegments true (segments p) := by
  rw [h.segments_eq]
  conv_lhs => rw [← h.clean, clean_eq_ofSegments, h.absolute]

theorem IsPlace.eq_of_segments_eq {q : Text} (hp : IsPlace p) (hq : IsPlace q)
    (h : segments p = segments q) :
    p = q := by
  rw [hp.eq_ofSegments, h, ← hq.eq_ofSegments]

theorem clean_of_segments_eq (hp : isAbsolute p = true)
    (hsegments : segments p = ss) (hss : ∀ s ∈ ss, IsName s) :
    clean p = ofSegments true ss := by
  have hdown : up ∉ ss := fun hup => (hss up hup).ne_up rfl
  have hkept : reduce true ss = ss := reduce_append true [] hdown
  rw [clean_eq_ofSegments, reduced, hp, hsegments, hkept]

theorem isPlace_ofSegments (h : ∀ s ∈ ss, IsName s) :
    IsPlace (ofSegments true ss) := by
  refine ⟨rfl, clean_of_segments_eq rfl ?_ h⟩
  exact segments_ofSegments (fun s hs => (h s hs).toIsSegment) true

/-- The directory of a place is the place without its last segment. -/
theorem dir_ofSegments_concat {s : Text} (h : ∀ t ∈ ss ++ [s], IsName t) :
    dir (ofSegments true (ss ++ [s])) = ofSegments true ss := by
  obtain ⟨hss, hs⟩ := List.forall_mem_append.1 h
  have hlast : slash ∉ s := (hs s List.mem_cons_self).slash_notMem
  obtain ⟨front, hfront, hrooted, hsegments⟩ : ∃ front,
      ofSegments true (ss ++ [s]) = front ++ slash :: s ∧
      isAbsolute (front ++ [slash]) = true ∧ segments front = ss := by
    cases ss with
    | nil => exact ⟨[], rfl, rfl, rfl⟩
    | cons t ts =>
      refine ⟨ofSegments true (t :: ts), ?_, rfl, ?_⟩
      · exact congrArg (slash :: ·)
          (join_slash_append (List.cons_ne_nil t ts) (List.cons_ne_nil s []))
      · exact segments_ofSegments (fun t ht => (hss t ht).toIsSegment) true
  have hcut : Text.cutLast slash (ofSegments true (ss ++ [s])) =
    some (front, s) :=
    Text.cutLast_eq_some_iff.2 ⟨hfront, hlast⟩
  rw [dir, hcut]
  apply clean_of_segments_eq hrooted _ hss
  rw [segments_append, hsegments]
  exact List.append_nil ss

/-- The first directory is the second one or lies above it. -/
structure Encloses (a dir : Text) : Prop where
  isPlace : IsPlace a
  isPrefix : segments a <+: segments dir

/-- How far a directory lies below the root. -/
def depth (p : Text) : Nat :=
  (segments p).length

theorem IsPlace.encloses_self
    {dir : Text} (h : IsPlace dir) :
    Encloses dir dir :=
  ⟨h, List.prefix_rfl⟩

/-- Among the directories above one directory there is one of each depth. -/
theorem Encloses.eq_of_depth_eq {b dir : Text} (ha : Encloses a dir)
    (hb : Encloses b dir) (h : depth a = depth b) :
    a = b := by
  apply ha.isPlace.eq_of_segments_eq hb.isPlace
  exact (List.prefix_of_prefix_length_le ha.isPrefix hb.isPrefix
    h.le).eq_of_length h

/-- The root lies in no other directory; a step up from anywhere else leaves one
segment. -/
theorem IsPlace.dir_cases
    {dir : Text} (h : IsPlace dir) :
    Path.dir dir = dir ∧ segments dir = [] ∨
      ∃ s, IsPlace (Path.dir dir) ∧
      segments dir = segments (Path.dir dir) ++ [s] := by
  have hsegments : ∀ {ss : List Text}, (∀ s ∈ ss, IsName s) →
    segments (ofSegments true ss) = ss :=
    fun hss => segments_ofSegments (fun s hs => (hss s hs).toIsSegment) true
  rcases List.eq_nil_or_concat (segments dir) with hnil | ⟨ss, s, hconcat⟩
  · left
    refine ⟨?_, hnil⟩
    rw [h.eq_ofSegments, hnil]
    decide
  · right
    rw [List.concat_eq_append] at hconcat
    have hnames : ∀ t ∈ ss ++ [s], IsName t := hconcat ▸ h.isName
    have hparent : Path.dir dir = ofSegments true ss := by
      rw [h.eq_ofSegments, hconcat, dir_ofSegments_concat hnames]
    obtain ⟨hss, -⟩ := List.forall_mem_append.1 hnames
    rw [hparent]
    exact ⟨s, isPlace_ofSegments hss, by rw [hconcat, hsegments hss]⟩

theorem IsPlace.segments_eq_nil
    {dir : Text} (h : IsPlace dir) (htop : Path.dir dir = dir) :
    segments dir = [] := by
  rcases h.dir_cases with ⟨-, hnil⟩ | ⟨s, -, hconcat⟩
  · exact hnil
  · rw [htop] at hconcat
    simp at hconcat

theorem IsPlace.exists_segments_eq_concat
    {dir : Text} (h : IsPlace dir) (hbelow : Path.dir dir ≠ dir) :
    ∃ s, IsPlace (Path.dir dir) ∧
      segments dir = segments (Path.dir dir) ++ [s] :=
  h.dir_cases.resolve_left fun htop => hbelow htop.1

theorem encloses_iff_of_dir_eq {dir : Text} (h : IsPlace dir)
    (htop : Path.dir dir = dir) :
    Encloses a dir ↔ a = dir := by
  have hnil := h.segments_eq_nil htop
  constructor
  · intro ha
    have hprefix := ha.isPrefix
    rw [hnil] at hprefix
    apply ha.isPlace.eq_of_segments_eq h
    rw [hnil, List.prefix_nil.1 hprefix]
  · rintro rfl
    exact h.encloses_self

theorem encloses_iff_of_dir_ne {dir : Text} (h : IsPlace dir)
    (hbelow : Path.dir dir ≠ dir) :
    Encloses a dir ↔ a = dir ∨ Encloses a (Path.dir dir) := by
  obtain ⟨s, -, hconcat⟩ := h.exists_segments_eq_concat hbelow
  constructor
  · rintro ⟨hplace, hprefix⟩
    rw [hconcat, List.prefix_concat_iff] at hprefix
    rcases hprefix with hall | hprefix
    · exact .inl (hplace.eq_of_segments_eq h (hall.trans hconcat.symm))
    · exact .inr ⟨hplace, hprefix⟩
  · rintro (rfl | ⟨hplace, hprefix⟩)
    · exact h.encloses_self
    · refine ⟨hplace, ?_⟩
      rw [hconcat]
      exact hprefix.trans (List.prefix_append _ _)

theorem IsPlace.depth_dir_lt
    {dir : Text} (h : IsPlace dir) (hbelow : Path.dir dir ≠ dir) :
    depth (Path.dir dir) < depth dir := by
  obtain ⟨s, -, hconcat⟩ := h.exists_segments_eq_concat hbelow
  rw [depth, depth, hconcat, List.length_append]
  exact Nat.lt_succ_self _

/-- The deepest directory with a property, among a directory and those above it.
-/
structure IsDeepest (dir : Text) (P : Text → Prop) (a : Text) : Prop where
  encloses : Encloses a dir
  holds : P a
  depth_le : ∀ b, Encloses b dir → P b → depth b ≤ depth a

theorem IsDeepest.eq {dir b : Text} {P : Text → Prop} (ha : IsDeepest dir P a)
    (hb : IsDeepest dir P b) :
    a = b :=
  ha.encloses.eq_of_depth_eq hb.encloses
    (Nat.le_antisymm (hb.depth_le a ha.encloses ha.holds)
    (ha.depth_le b hb.encloses hb.holds))

/-- Where one of two properties that exclude each other comes first, the other
comes later. -/
theorem isDeepest_or_and_iff {dir : Text} {P Q : Text → Prop}
    (hexclude : ∀ b, P b → ¬Q b) :
    IsDeepest dir (fun b => P b ∨ Q b) a ∧ P a ↔
      IsDeepest dir P a ∧ ∀ b, Encloses b dir → Q b → depth b < depth a := by
  constructor
  · rintro ⟨h, hP⟩
    refine ⟨⟨h.encloses, hP, fun b hb hPb => h.depth_le b hb (.inl hPb)⟩, ?_⟩
    intro b hb hQb
    refine lt_of_le_of_ne (h.depth_le b hb (.inr hQb)) ?_
    intro heq
    rw [hb.eq_of_depth_eq h.encloses heq] at hQb
    exact hexclude a hP hQb
  · rintro ⟨h, hQ⟩
    refine ⟨⟨h.encloses, .inl h.holds, ?_⟩, h.holds⟩
    rintro b hb (hPb | hQb)
    · exact h.depth_le b hb hPb
    · exact (hQ b hb hQb).le

end Path

/-! ## The search -/

namespace Manifest

variable {fs : FileSystem}

/-- The manifest that a directory would have. -/
def candidate (dir : Text) : Text :=
  Path.join [dir, fileName]

def stat (fs : FileSystem) (dir : Text) : Except FileError Node :=
  fs.inspect "stat" (candidate dir)

def Holds (fs : FileSystem) (dir : Text) : Prop :=
  ∃ node, stat fs dir = .ok node

/-- The file system says that the directory has none. -/
def Lacks (fs : FileSystem) (dir : Text) : Prop :=
  ∃ e, stat fs dir = .error e ∧ e.missing = true

/-- The file system does not say whether the directory has one. -/
def Refuses (fs : FileSystem) (dir : Text) : Prop :=
  ∃ e, stat fs dir = .error e ∧ e.missing = false

/-- The search from a directory, up to its end: one step asks about the
directory, and goes on in the one above it as long as there is nothing and that
is another one. -/
inductive Climbs (fs : FileSystem) : Text → Except ManifestError (Option Text) →
    Prop
  | found {dir : Text} {node : Node} (h : stat fs dir = .ok node) :
      Climbs fs dir (.ok (some (candidate dir)))
  | refused {dir : Text} {e : FileError} (h : stat fs dir = .error e)
      (he : e.missing = false) :
      Climbs fs dir (.error (.unknowable (candidate dir) e))
  | top {dir : Text} (h : Lacks fs dir) (htop : Path.dir dir = dir) :
      Climbs fs dir (.ok none)
  | up {dir : Text} {r : Except ManifestError (Option Text)} (h : Lacks fs dir)
      (hbelow : Path.dir dir ≠ dir)
      (hr : Climbs fs (Path.dir dir) r) :
      Climbs fs dir r

theorem findIn_cons (fs : FileSystem) (dir : Text) (dirs : List Text) :
    findIn fs (dir :: dirs) =
      match stat fs dir with
      | .ok _ => .ok (some (candidate dir))
      | .error e =>
        if e.missing then findIn fs dirs
        else .error (.unknowable (candidate dir) e) :=
  rfl

theorem upward_of_dir_eq
    {dir : Text} (h : Path.IsPlace dir) (htop : Path.dir dir = dir) :
    upward dir = [dir] := by
  have hnone : FileSystem.ancestors dir = [] := by
    rw [FileSystem.ancestors, h.segments_eq_nil htop]
    rfl
  rw [upward, hnone]
  rfl

theorem upward_of_dir_ne
    {dir : Text} (h : Path.IsPlace dir) (hbelow : Path.dir dir ≠ dir) :
    upward dir = dir :: upward (Path.dir dir) := by
  obtain ⟨s, hplace, hconcat⟩ := h.exists_segments_eq_concat hbelow
  have hway : FileSystem.ancestors dir = FileSystem.way (Path.dir dir) := by
    have hsegment : ∀ t ∈ Path.segments (Path.dir dir) ++ [s],
      Path.IsSegment t :=
      fun t ht => Path.isSegment_of_mem_segments (hconcat ▸ ht)
    rw [h.eq_ofSegments, hconcat,
      FileSystem.ancestors_ofSegments_concat hsegment, ← hplace.eq_ofSegments,
      ← hconcat, ← h.eq_ofSegments]
  rw [upward, hway, FileSystem.way, List.reverse_append]
  rfl

/-- The directories are asked about along the way up, so the search ends with
what is found among them. -/
theorem climbs_findIn_upward
    (fs : FileSystem) {dir : Text} (h : Path.IsPlace dir) :
    Climbs fs dir (findIn fs (upward dir)) := by
  induction hdepth : Path.depth dir using Nat.strong_induction_on
    generalizing dir with
  | _ n ih =>
    obtain ⟨dirs, hupward⟩ : ∃ dirs, upward dir = dir :: dirs := ⟨_, rfl⟩
    cases hstat : stat fs dir with
    | ok node =>
      rw [hupward, findIn_cons, hstat]
      exact .found hstat
    | error e =>
      cases hmissing : e.missing with
      | false =>
        rw [hupward, findIn_cons, hstat]
        simp only [hmissing]
        exact .refused hstat hmissing
      | true =>
        have hlacks : Lacks fs dir := ⟨e, hstat, hmissing⟩
        by_cases htop : Path.dir dir = dir
        · rw [upward_of_dir_eq h htop, findIn_cons, hstat]
          simp only [hmissing]
          exact .top hlacks htop
        · obtain ⟨-, hplace, -⟩ := h.exists_segments_eq_concat htop
          have hlt := h.depth_dir_lt htop
          rw [upward_of_dir_ne h htop, findIn_cons, hstat]
          simp only [hmissing]
          exact .up hlacks htop (ih _ (hdepth ▸ hlt) hplace rfl)

/-! ## What decides -/

theorem not_lacks_iff {dir : Text} :
    ¬Lacks fs dir ↔ Holds fs dir ∨ Refuses fs dir := by
  cases hstat : stat fs dir with
  | ok node => simp [Lacks, Holds, hstat]
  | error e => simp [Lacks, Holds, Refuses, hstat]

theorem not_refuses_of_holds {dir : Text} (h : Holds fs dir) :
    ¬Refuses fs dir := by
  obtain ⟨node, hnode⟩ := h
  rintro ⟨e, he, -⟩
  rw [hnode] at he
  cases he

/-- The answer of a search that ends in a directory with a manifest, or with one
that is not told of. -/
def answer (fs : FileSystem)
    (dir : Text) : Except ManifestError (Option Text) :=
  match stat fs dir with
  | .ok _ => .ok (some (candidate dir))
  | .error e => .error (.unknowable (candidate dir) e)

/-- The search is decided by the deepest directory that does not lack a
manifest, if there is one. -/
theorem Climbs.decided {dir : Text} {r : Except ManifestError (Option Text)}
    (h : Climbs fs dir r) (hplace : Path.IsPlace dir) :
    (∀ a, Path.Encloses a dir → Lacks fs a) ∧ r = .ok none ∨
      ∃ a, Path.IsDeepest dir (fun b => Holds fs b ∨ Refuses fs b) a ∧
      r = answer fs a := by
  have hfirst : ∀ dir, Path.IsPlace dir → (Holds fs dir ∨ Refuses fs dir) →
      Path.IsDeepest dir (fun b => Holds fs b ∨ Refuses fs b) dir :=
    fun dir hplace hsome =>
      ⟨hplace.encloses_self, hsome, fun b hb _ => hb.isPrefix.length_le⟩
  induction h with
  | @found dir node h =>
    exact .inr ⟨dir, hfirst dir hplace (.inl ⟨node, h⟩), by rw [answer, h]⟩
  | @refused dir e h he =>
    exact .inr ⟨dir, hfirst dir hplace (.inr ⟨e, h, he⟩), by rw [answer, h]⟩
  | @top dir h htop =>
    refine .inl ⟨fun a ha => ?_, rfl⟩
    rw [(Path.encloses_iff_of_dir_eq hplace htop).1 ha]
    exact h
  | @up dir r h hbelow _ ih =>
    obtain ⟨-, hparent, -⟩ := hplace.exists_segments_eq_concat hbelow
    have habove : ∀ a, Path.Encloses a dir ↔ a = dir ∨
      Path.Encloses a (Path.dir dir) :=
      fun a => Path.encloses_iff_of_dir_ne hplace hbelow
    rcases ih hparent with ⟨hlack, hr⟩ | ⟨a, ha, hr⟩
    · refine .inl ⟨fun a ha => ?_, hr⟩
      rcases (habove a).1 ha with rfl | ha
      · exact h
      · exact hlack a ha
    · refine .inr ⟨a, ⟨(habove a).2 (.inr ha.encloses), ha.holds, ?_⟩, hr⟩
      intro b hb hsome
      rcases (habove b).1 hb with rfl | hb
      · exact absurd h (not_lacks_iff.2 hsome)
      · exact ha.depth_le b hb hsome

/-- What the search for a manifest from a directory comes to. -/
structure Nearest (fs : FileSystem) (dir : Text)
    (r : Except ManifestError (Option Text)) : Prop where
  ends : Climbs fs dir r
  /-- The manifest of the deepest directory that has one is found if no deeper
  one refuses an answer. -/
  found_iff : ∀ path, r = .ok (some path) ↔
    ∃ a, Path.IsDeepest dir (Holds fs) a ∧
      (∀ b, Path.Encloses b dir → Refuses fs b → Path.depth b < Path.depth a) ∧
      path = candidate a
  /-- The refusal of the deepest directory that gives one is passed on if no
  deeper one has a manifest. -/
  refused_iff : ∀ e, r = .error e ↔
    ∃ a cause, Path.IsDeepest dir (Refuses fs) a ∧
      (∀ b, Path.Encloses b dir → Holds fs b → Path.depth b < Path.depth a) ∧
      stat fs a = .error cause ∧ e = .unknowable (candidate a) cause
  none_iff : r = .ok none ↔ ∀ a, Path.Encloses a dir → Lacks fs a

theorem Climbs.nearest {dir : Text} {r : Except ManifestError (Option Text)}
    (h : Climbs fs dir r) (hplace : Path.IsPlace dir) :
    Nearest fs dir r := by
  have hholds : ∀ b, Holds fs b → ¬Refuses fs b := fun b => not_refuses_of_holds
  have hrefuses : ∀ b, Refuses fs b → ¬Holds fs b := fun b hb hold =>
    not_refuses_of_holds hold hb
  have hcomm : (fun b => Refuses fs b ∨ Holds fs b) = fun b => Holds fs b ∨
    Refuses fs b :=
    funext fun b => propext or_comm
  have hanswer : ∀ a, Path.IsDeepest dir (fun b => Holds fs b ∨ Refuses fs b)
      a → r = answer fs a := by
    intro a ha
    rcases h.decided hplace with ⟨hlack, -⟩ | ⟨b, hb, hr⟩
    · exact absurd (hlack a ha.encloses) (not_lacks_iff.2 ha.holds)
    · rw [hr, hb.eq ha]
  constructor
  case ends => exact h
  case found_iff =>
    intro path
    constructor
    · intro hpath
      rcases h.decided hplace with ⟨-, hnone⟩ | ⟨a, ha, hr⟩
      · rw [hnone] at hpath
        cases hpath
      · rw [hr, answer] at hpath
        rcases ha.holds with hhold | ⟨e, he, -⟩
        · obtain ⟨hdeepest, hlater⟩ :=
            (Path.isDeepest_or_and_iff hholds).1 ⟨ha, hhold⟩
          obtain ⟨node, hnode⟩ := hhold
          rw [hnode] at hpath
          cases hpath
          exact ⟨a, hdeepest, hlater, rfl⟩
        · rw [he] at hpath
          cases hpath
    · rintro ⟨a, hdeepest, hlater, rfl⟩
      obtain ⟨ha, node, hnode⟩ :=
        (Path.isDeepest_or_and_iff hholds).2 ⟨hdeepest, hlater⟩
      rw [hanswer a ha, answer, hnode]
  case refused_iff =>
    intro e
    constructor
    · intro herror
      rcases h.decided hplace with ⟨-, hnone⟩ | ⟨a, ha, hr⟩
      · rw [hnone] at herror
        cases herror
      · rw [hr, answer] at herror
        rcases ha.holds with ⟨node, hnode⟩ | hrefuse
        · rw [hnode] at herror
          cases herror
        · obtain ⟨hdeepest, hlater⟩ :=
            (Path.isDeepest_or_and_iff hrefuses).1 ⟨hcomm ▸ ha, hrefuse⟩
          obtain ⟨cause, hcause, -⟩ := hrefuse
          rw [hcause] at herror
          cases herror
          exact ⟨a, cause, hdeepest, hlater, hcause, rfl⟩
    · rintro ⟨a, cause, hdeepest, hlater, hcause, rfl⟩
      obtain ⟨ha, -⟩ :=
        (Path.isDeepest_or_and_iff hrefuses).2 ⟨hdeepest, hlater⟩
      rw [hcomm] at ha
      rw [hanswer a ha, answer, hcause]
  case none_iff =>
    constructor
    · intro hnone
      rcases h.decided hplace with ⟨hlack, -⟩ | ⟨a, -, hr⟩
      · exact hlack
      · rw [hr, answer] at hnone
        split at hnone
        next => cases hnone
        next => cases hnone
    · intro hlack
      rcases h.decided hplace with ⟨-, hnone⟩ | ⟨a, ha, -⟩
      · exact hnone
      · exact absurd (hlack a ha.encloses) (not_lacks_iff.2 ha.holds)

/-- From every directory that is given by a path from the root, the nearest
manifest is found. -/
theorem nearest_find
    (fs : FileSystem) {start : Text} (hstart : Path.isAbsolute start = true) :
    Nearest fs (Path.clean start) (find fs start) := by
  have hplace : Path.IsPlace (Path.clean start) := Path.isPlace_clean hstart
  have hfind : find fs start = findIn fs (upward (Path.clean start)) := by
    rw [find, FileSystem.absolute, if_pos hstart]
  rw [hfind]
  exact (climbs_findIn_upward fs hplace).nearest hplace

/-- Manifests in two directories above one another, and a directory between them
that refuses an answer. -/
def layered : FileSystem :=
  { nodes := [("/", .directory), ("/wlbind.toml", .file []),
      ("/a/b/c/wlbind.toml", .file [])]
    unknowable := ["/a/b/wlbind.toml"] }

/-- The manifest below the refusal is found, and from there on up the refusal
counts. -/
theorem nearest_layered :
    find layered "/a/b//c/d/./e" = .ok (some "/a/b/c/wlbind.toml") ∧
      Nearest layered (Path.clean "/a/b//c/d/./e")
      (find layered "/a/b//c/d/./e") ∧
      find layered "/a/b/c/.." =
      .error (.unknowable "/a/b/wlbind.toml" FileSystem.injected) ∧
      Nearest layered (Path.clean "/a/b/c/..") (find layered "/a/b/c/..") := by
  have hfound : find layered "/a/b//c/d/./e" =
      .ok (some (Text.ofString "/a/b/c/wlbind.toml")) := by
    decide +kernel
  have hrefused : find layered "/a/b/c/.." =
      .error (.unknowable (Text.ofString "/a/b/wlbind.toml")
      FileSystem.injected) := by
    decide +kernel
  exact ⟨hfound, nearest_find layered (by decide +kernel), hrefused,
    nearest_find layered (by decide +kernel)⟩

end Manifest

end ProtocolCorpus
