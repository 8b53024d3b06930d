import Mathlib.Data.List.Basic
import Mathlib.Data.List.Induction
import ProtocolCorpus.Corpus.Discovery
import ProtocolCorpus.Proofs.Chain
import ProtocolCorpus.Proofs.Order
import ProtocolCorpus.Proofs.Parts

/-!
# Clean paths

A clean path is made of two things: whether it starts at the root, and the row
of segments that are left. Both can be read off it again, so clean paths are
equal exactly if they agree in both. A path that only leads down adds its
segments to whatever it is put below; the identity of a document is such a path.
-/

namespace ProtocolCorpus

namespace Text

theorem startsWith_append (p t : Text) :
    startsWith (p ++ t) p = true := by
  induction p with
  | nil => rfl
  | cons a p ih => simpa [startsWith, stripFront?] using ih

theorem join_slash_cons_cons (s q : Text) (qs : List Text) :
    join "/" (s :: q :: qs) = s ++ Path.slash :: join "/" (q :: qs) :=
  join_singleton_cons_cons Path.slash s q qs

end Text

namespace Path

variable {p s t root : Text} {ss stack : List Text} {rooted : Bool}

/-! ## Segments -/

/-- A segment that names something, or leads up. -/
structure IsSegment (s : Text) : Prop where
  nonempty : s ≠ []
  ne_dot : s ≠ "."
  slash_notMem : slash ∉ s

theorem isSegment_of_mem_segments (h : s ∈ segments p) :
    IsSegment s := by
  rw [segments, List.mem_filter] at h
  have hnames : s ≠ [] ∧ s ≠ "." := by simpa using h.2
  exact ⟨hnames.1, hnames.2, fun hslash =>
    (Text.mem_and_ne_of_mem_splitOn h.1 hslash).2 rfl⟩

theorem segments_append (s t : Text) :
    segments (s ++ slash :: t) = segments s ++ segments t := by
  rw [segments, Text.splitOn_append, List.filter_append]
  rfl

theorem IsSegment.segments_eq (h : IsSegment s) :
    segments s = [s] := by
  rw [segments, Text.splitOn_eq_singleton h.slash_notMem]
  simp [h.nonempty, h.ne_dot]

theorem segments_join (h : ∀ s ∈ ss, IsSegment s) :
    segments (Text.join "/" ss) = ss := by
  induction ss with
  | nil => rfl
  | cons s ss ih =>
    have hs : IsSegment s := h s List.mem_cons_self
    have hss : ∀ t ∈ ss, IsSegment t := fun t ht =>
      h t (List.mem_cons_of_mem s ht)
    cases ss with
    | nil => exact hs.segments_eq
    | cons q qs =>
      rw [Text.join_slash_cons_cons, segments_append, hs.segments_eq, ih hss]
      rfl

/-! ## Steps up -/

abbrev up : Text := ".."

theorem mem_of_mem_push (h : t ∈ push rooted stack s) :
    t = s ∨ t ∈ stack := by
  unfold push at h
  by_cases hup : s = ".."
  · cases stack with
    | nil =>
      cases rooted with
      | true => simp [hup] at h
      | false => simpa [hup] using h
    | cons top rest =>
      by_cases htop : top = ".."
      · simpa [hup, htop] using h
      · simp only [hup, BEq.rfl, if_true, beq_iff_eq, htop, if_false] at h
        exact .inr (List.mem_cons_of_mem top h)
  · simpa [hup] using h

theorem mem_of_mem_foldl_push {segs : List Text}
    (h : t ∈ segs.foldl (push rooted) stack) :
    t ∈ segs ∨ t ∈ stack := by
  induction segs generalizing stack with
  | nil => exact .inr h
  | cons s segs ih =>
    rcases ih h with hsegs | hstack
    · exact .inl (List.mem_cons_of_mem s hsegs)
    · rcases mem_of_mem_push hstack with rfl | hstack
      · exact .inl List.mem_cons_self
      · exact .inr hstack

/-- Segments that lead down are kept as they are. -/
theorem reduce_append
    (rooted : Bool) (segs : List Text) {down : List Text} (hdown : up ∉ down) :
    reduce rooted (segs ++ down) = reduce rooted segs ++ down := by
  have hkept : ∀ stack, down.foldl (push rooted) stack =
      down.reverse ++ stack := by
    intro stack
    induction down generalizing stack with
    | nil => rfl
    | cons s down ih =>
      rw [List.mem_cons, not_or] at hdown
      have hpush : push rooted stack s = s :: stack := by
        simp [push, Ne.symm hdown.1]
      rw [List.foldl_cons, hpush, ih hdown.2, List.reverse_cons,
        List.append_assoc]
      rfl
  rw [reduce, List.foldl_append, hkept, List.reverse_append,
    List.reverse_reverse]
  rfl

/-- A stack in which all steps up stand below the others, and from the root
there are none. -/
def StepsUpBelow (rooted : Bool) (stack : List Text) : Prop :=
  ∃ (k : Nat) (down : List Text), stack = down ++ List.replicate k up ∧
    up ∉ down ∧ (rooted = true → k = 0)

theorem StepsUpBelow.push (h : StepsUpBelow rooted stack) (s : Text) :
    StepsUpBelow rooted (push rooted stack s) := by
  obtain ⟨k, down, rfl, hdown, hroot⟩ := h
  unfold Path.push
  by_cases hup : s = ".."
  · cases down with
    | nil =>
      cases k with
      | zero =>
        cases rooted with
        | true => exact ⟨0, [], by simp [hup], by simp, fun _ => rfl⟩
        | false => exact ⟨1, [], by simp [hup], by simp, by simp⟩
      | succ k =>
        refine ⟨k + 2, [], by simp [hup, List.replicate_succ], by simp, ?_⟩
        intro hrooted
        cases hroot hrooted
    | cons top down =>
      rw [List.mem_cons, not_or] at hdown
      have htop : top ≠ ".." := Ne.symm hdown.1
      exact ⟨k, down, by simp [hup, htop], hdown.2, hroot⟩
  · refine ⟨k, s :: down, by simp [hup], ?_, hroot⟩
    rw [List.mem_cons, not_or]
    exact ⟨Ne.symm hup, hdown⟩

theorem exists_reduce_eq (rooted : Bool) (segs : List Text) :
    ∃ (k : Nat) (down : List Text), reduce rooted segs = List.replicate k up ++
    down ∧ up ∉ down ∧
      (rooted = true → k = 0) := by
  have hstack : StepsUpBelow rooted (segs.foldl (push rooted) []) := by
    refine List.foldlRecOn (motive := StepsUpBelow rooted) segs (push rooted)
      ⟨0, [], rfl, by simp, fun _ => rfl⟩ ?_
    intro stack hstack s _
    exact hstack.push s
  obtain ⟨k, down, hstack, hdown, hroot⟩ := hstack
  refine ⟨k, down.reverse, ?_, by simpa using hdown, hroot⟩
  rw [reduce, hstack, List.reverse_append, List.reverse_replicate]

theorem reduce_replicate_up (k : Nat) :
    reduce false (List.replicate k up) = List.replicate k up := by
  have hstack : (List.replicate k up).foldl (push false) [] =
      List.replicate k up := by
    induction k with
    | zero => rfl
    | succ k ih =>
      rw [List.replicate_succ', List.foldl_append, ih, ← List.replicate_succ']
      cases k with
      | zero => rfl
      | succ k => simp [push, List.replicate_succ]
  rw [reduce, hstack, List.reverse_replicate]

theorem reduce_reduce (rooted : Bool) (segs : List Text) :
    reduce rooted (reduce rooted segs) = reduce rooted segs := by
  obtain ⟨k, down, hreduced, hdown, hroot⟩ := exists_reduce_eq rooted segs
  rw [hreduced, reduce_append _ _ hdown]
  cases rooted with
  | true =>
    rw [hroot rfl]
    rfl
  | false => rw [reduce_replicate_up]

/-! ## Clean paths -/

/-- The segments that a path leads through when all steps up are done. -/
def reduced (p : Text) : List Text :=
  reduce (isAbsolute p) (segments p)

theorem isSegment_of_mem_reduced (h : s ∈ reduced p) :
    IsSegment s := by
  rw [reduced, reduce, List.mem_reverse] at h
  rcases mem_of_mem_foldl_push h with hs | hs
  · exact isSegment_of_mem_segments hs
  · cases hs

/-- The path through a row of segments, from the root or not. -/
def ofSegments (rooted : Bool) (ss : List Text) : Text :=
  let body := Text.join "/" ss
  if rooted then slash :: body
  else if body.isEmpty then "." else body

theorem clean_eq_ofSegments (p : Text) :
    clean p = ofSegments (isAbsolute p) (reduced p) :=
  rfl

theorem segments_ofSegments (h : ∀ s ∈ ss, IsSegment s) (rooted : Bool) :
    segments (ofSegments rooted ss) = ss := by
  cases rooted with
  | true =>
    calc
      segments (slash :: Text.join "/" ss)
          = segments [] ++ segments (Text.join "/" ss) := segments_append [] _
      _ = ss := segments_join h
  | false =>
    rw [ofSegments]
    by_cases hbody : Text.join "/" ss = []
    · have hnone : ss = [] := by
        rw [← segments_join h, hbody]
        rfl
      rw [hnone]
      rfl
    · simpa [hbody] using segments_join h

theorem isAbsolute_ofSegments (h : ∀ s ∈ ss, IsSegment s) (rooted : Bool) :
    isAbsolute (ofSegments rooted ss) = rooted := by
  cases rooted with
  | true => rfl
  | false =>
    cases ss with
    | nil => rfl
    | cons s ss =>
      have hs : IsSegment s := h s List.mem_cons_self
      obtain ⟨b, bs, rfl⟩ := List.exists_cons_of_ne_nil hs.nonempty
      have hb : b ≠ slash := fun heq =>
        hs.slash_notMem (heq ▸ List.mem_cons_self)
      have hhead : (Text.join "/" ((b :: bs) :: ss)).head? = some b :=
        Text.head?_join "/" hs.nonempty ss
      have hbody : Text.join "/" ((b :: bs) :: ss) ≠ [] := by
        intro hnil
        rw [hnil] at hhead
        cases hhead
      simp [ofSegments, hbody, isAbsolute, hhead, hb]

/-- A clean path shows whether it starts at the root and which segments it leads
through. -/
theorem clean_eq_clean_iff {q : Text} :
    clean p = clean q ↔ isAbsolute p = isAbsolute q ∧
    reduced p = reduced q := by
  have hp : ∀ s ∈ reduced p, IsSegment s := fun s hs =>
    isSegment_of_mem_reduced hs
  have hq : ∀ s ∈ reduced q, IsSegment s := fun s hs =>
    isSegment_of_mem_reduced hs
  constructor
  · intro h
    rw [clean_eq_ofSegments, clean_eq_ofSegments] at h
    constructor
    · rw [← isAbsolute_ofSegments hp (isAbsolute p), h,
        isAbsolute_ofSegments hq]
    · rw [← segments_ofSegments hp (isAbsolute p), h, segments_ofSegments hq]
  · rintro ⟨hrooted, hreduced⟩
    rw [clean_eq_ofSegments, clean_eq_ofSegments, hrooted, hreduced]

theorem clean_clean (p : Text) :
    clean (clean p) = clean p := by
  have hp : ∀ s ∈ reduced p, IsSegment s := fun s hs =>
    isSegment_of_mem_reduced hs
  have hrooted : isAbsolute (clean p) = isAbsolute p :=
    isAbsolute_ofSegments hp _
  have hsegments : segments (clean p) = reduced p := segments_ofSegments hp _
  rw [clean_eq_clean_iff]
  refine ⟨hrooted, ?_⟩
  rw [reduced, hrooted, hsegments]
  exact reduce_reduce _ _

theorem clean_ne_nil (p : Text) :
    clean p ≠ [] := by
  rw [clean_eq_ofSegments, ofSegments]
  split
  · exact List.cons_ne_nil _ _
  · split
    · decide
    · next hbody => simpa using hbody

theorem isAbsolute_append (hroot : root ≠ []) (t : Text) :
    isAbsolute (root ++ t) = isAbsolute root := by
  rw [isAbsolute, isAbsolute, List.head?_append_of_ne_nil _ hroot]

theorem join_pair (hroot : root ≠ []) (ht : t ≠ []) :
    join [root, t] = clean (root ++ slash :: t) := by
  have hparts : [root, t].filter (fun p => !p.isEmpty) = [root, t] := by
    simp [hroot, ht]
  rw [join, hparts]
  change clean (Text.join "/" [root, t]) = _
  rw [Text.join_slash_cons_cons]
  rfl

theorem clean_join_cons (hroot : root ≠ []) (parts : List Text) :
    clean (join (root :: parts)) = join (root :: parts) := by
  rw [join, List.filter_cons_of_pos (by simpa using hroot)]
  exact clean_clean _

end Path

/-! ## Identities -/

namespace Corpus

variable {id id' root : Text} {fs : FileSystem} {patterns ids : List Text}

/-- A path that leads down from the root of the corpus, and is clean. -/
structure IsIdentity (id : Text) : Prop where
  nonempty : id ≠ []
  descends : Path.up ∉ Path.segments id
  join_segments : Text.join "/" (Path.segments id) = id

theorem isIdentity_of_identity {path : Text} (h : identity path = .ok id) :
    IsIdentity id := by
  unfold identity at h
  dsimp only at h
  split at h
  · cases h
  next hdot =>
    split at h
    · cases h
    next hinside =>
      cases h
      simp only [Bool.or_eq_true, beq_iff_eq, not_or, Bool.not_eq_true]
        at hdot hinside
      obtain ⟨⟨hup, hclimb⟩, hrelative⟩ := hinside
      have hsegment : ∀ s ∈ Path.reduced path, Path.IsSegment s :=
        fun s hs => Path.isSegment_of_mem_reduced hs
      have hrooted : Path.isAbsolute path = false := by
        rw [← Path.isAbsolute_ofSegments hsegment (Path.isAbsolute path),
          ← Path.clean_eq_ofSegments, hrelative]
      have hclean : Path.clean path = Text.join "/" (Path.reduced path) := by
        rw [Path.clean_eq_ofSegments, hrooted] at hdot ⊢
        by_cases hbody : Text.join "/" (Path.reduced path) = []
        · exact absurd (by simp [Path.ofSegments, hbody]) hdot
        · simp [Path.ofSegments, hbody]
      have hsegments : Path.segments (Path.clean path) = Path.reduced path := by
        rw [hclean, Path.segments_join hsegment]
      refine ⟨Path.clean_ne_nil path, ?_, by rw [hsegments, hclean]⟩
      rw [hsegments]
      obtain ⟨k, down, hreduced, hdown, -⟩ :=
        Path.exists_reduce_eq (Path.isAbsolute path) (Path.segments path)
      change Path.reduced path = _ at hreduced
      cases k with
      | zero => rwa [hreduced]
      | succ k =>
        -- a first step up would show at the front of the path
        rw [hclean, hreduced, List.replicate_succ, List.cons_append]
          at hup hclimb
        cases hrest : List.replicate k Path.up ++ down with
        | nil =>
          rw [hrest] at hup
          exact absurd rfl hup
        | cons s ss =>
          rw [hrest, Text.join_slash_cons_cons] at hclimb
          have hstarts := Text.startsWith_append "../" (Text.join "/" (s :: ss))
          exact absurd hstarts (by rw [Bool.not_eq_true]; exact hclimb)

/-- Identities that lead through the same segments are equal. -/
theorem IsIdentity.eq_of_segments_eq (h : IsIdentity id) (h' : IsIdentity id')
    (hsegments : Path.segments id = Path.segments id') :
    id = id' := by
  rw [← h.join_segments, hsegments, h'.join_segments]

theorem reduced_below (hroot : root ≠ []) (hid : IsIdentity id) :
    Path.reduced (root ++ Path.slash :: id) = Path.reduced root ++
    Path.segments id := by
  rw [Path.reduced, Path.isAbsolute_append hroot, Path.segments_append,
    Path.reduce_append _ _ hid.descends]
  rfl

/-- Two documents have the same path exactly if the segments of the roots and of
the identities make up the same row, from the root or not. -/
theorem join_eq_join_iff {root' : Text} (hroot : root ≠ [])
    (hroot' : root' ≠ []) (hid : IsIdentity id) (hid' : IsIdentity id') :
    Path.join [root, id] = Path.join [root', id'] ↔
      Path.isAbsolute root = Path.isAbsolute root' ∧
        Path.reduced root ++ Path.segments id = Path.reduced root' ++
        Path.segments id' := by
  rw [Path.join_pair hroot hid.nonempty, Path.join_pair hroot' hid'.nonempty,
    Path.clean_eq_clean_iff, Path.isAbsolute_append hroot,
    Path.isAbsolute_append hroot', reduced_below hroot hid,
    reduced_below hroot' hid']

/-- Where the paths of two documents agree, so do their identities exactly if
the roots are one place. -/
theorem identity_eq_iff_clean_root_eq {root' : Text} (hroot : root ≠ [])
    (hroot' : root' ≠ []) (hid : IsIdentity id) (hid' : IsIdentity id')
    (hpath : Path.join [root, id] = Path.join [root', id']) :
    id = id' ↔ Path.clean root = Path.clean root' := by
  obtain ⟨hrooted, hrow⟩ := (join_eq_join_iff hroot hroot' hid hid').1 hpath
  rw [Path.clean_eq_clean_iff]
  constructor
  · rintro rfl
    exact ⟨hrooted, List.append_cancel_right hrow⟩
  · rintro ⟨-, hreduced⟩
    rw [hreduced] at hrow
    exact hid.eq_of_segments_eq hid' (List.append_cancel_left hrow)

/-! ## What is found -/

theorem exists_mem_of_mem_mapM
    {α β ε : Type} {f : α → Except ε β} {as : List α} {bs : List β}
    (h : as.mapM f = .ok bs) {b : β} (hb : b ∈ bs) :
    ∃ a ∈ as, f a = .ok b := by
  induction as generalizing bs with
  | nil =>
    rw [List.mapM_nil, Chain.pure_eq_ok_iff] at h
    rw [← h] at hb
    cases hb
  | cons a as ih =>
    simp only [List.mapM_cons, Chain.bind_eq_ok_iff, Chain.pure_eq_ok_iff] at h
    obtain ⟨c, hc, cs, hcs, rfl⟩ := h
    rcases List.mem_cons.1 hb with rfl | hb
    · exact ⟨a, List.mem_cons_self, hc⟩
    · obtain ⟨a', ha', hb'⟩ := ih hcs hb
      exact ⟨a', List.mem_cons_of_mem a ha', hb'⟩

theorem discover_eq_ok (h : discover fs root patterns = .ok ids) :
    ids = [] ∨ ∃ all, candidates fs root = .ok all ∧
    ids = Text.sort (all.filter (included patterns)) := by
  unfold discover at h
  split at h
  · cases h
  · split at h
    · cases h
    · split at h
      · cases h
      · cases h
        exact .inl rfl
    · split at h
      · cases h
      · obtain ⟨all, hall, hsorted⟩ := Chain.map_eq_ok_iff.1 h
        exact .inr ⟨all, hall, hsorted.symm⟩

/-- What is found are identities. -/
theorem isIdentity_of_discover (h : discover fs root patterns = .ok ids)
    (hid : id ∈ ids) :
    IsIdentity id := by
  rcases discover_eq_ok h with rfl | ⟨all, hall, rfl⟩
  · cases hid
  · rw [Text.sort, List.mem_mergeSort, List.mem_filter] at hid
    obtain ⟨entry, -, hentry⟩ := exists_mem_of_mem_mapM hall hid.1
    dsimp only at hentry
    cases hidentity : identity (Text.join "/" entry.1) with
    | error e =>
      rw [hidentity] at hentry
      cases hentry
    | ok x =>
      rw [hidentity] at hentry
      cases hentry
      exact isIdentity_of_identity hidentity

/-- Without patterns, all candidates below a directory are found. -/
theorem discover_nil_eq_ok {ids : List Text}
    (hroot : fs.inspect "lstat" root = .ok .directory)
    (hreadable : unreadableDirectory? fs root = false)
    (hids : candidates fs root = .ok ids) :
    discover fs root [] = .ok (Text.sort ids) := by
  have hall : ids.filter (included []) = ids := List.filter_eq_self.2 fun _ _ =>
    rfl
  simp only [discover, List.find?_nil, hroot, hreadable, hids, Except.map, hall,
    Bool.false_eq_true, if_false]

theorem pairwise_le_of_discover (h : discover fs root patterns = .ok ids) :
    ids.Pairwise fun s t => Text.le s t = true := by
  rcases discover_eq_ok h with rfl | ⟨all, -, rfl⟩
  · exact .nil
  · exact List.pairwise_mergeSort Text.le_trans Text.le_total _

end Corpus

end ProtocolCorpus
