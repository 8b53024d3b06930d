import ProtocolCorpus.Proofs.Path
import ProtocolCorpus.Resolution.Pass

/-!
# Relative paths of imports

The path of an import is shown as seen from the directory of the importing
document. To follow it segment by segment leads back to the import: the steps up
leave exactly the segments of the directory that the import does not share, and
the steps down enter those of the import. So a step up never leaves more than
there is. Each such path shows at once that it is a relative one, for it starts
with a step up or with a `.`.
-/

namespace ProtocolCorpus

namespace Path

theorem dropCommon_append (common as bs : List Text) :
    dropCommon (common ++ as) (common ++ bs) = dropCommon as bs := by
  induction common with
  | nil => rfl
  | cons c common ih =>
    rw [List.cons_append, List.cons_append, dropCommon, if_pos rfl, ih]

/-- What two lists have in common is taken away from the front of both. -/
theorem exists_dropCommon_eq (as bs : List Text) :
    ∃ common, as = common ++ (dropCommon as bs).1 ∧
    bs = common ++ (dropCommon as bs).2 := by
  induction as generalizing bs with
  | nil => exact ⟨[], rfl, rfl⟩
  | cons a as ih =>
    cases bs with
    | nil => exact ⟨[], rfl, rfl⟩
    | cons b bs =>
      rw [dropCommon]
      by_cases hab : a = b
      · obtain ⟨common, has, hbs⟩ := ih bs
        refine ⟨a :: common, ?_, ?_⟩
        · rw [if_pos hab, List.cons_append, ← has]
        · rw [if_pos hab, List.cons_append, ← hbs, hab]
      · refine ⟨[], ?_, ?_⟩ <;>
          rw [if_neg hab, List.nil_append]

end Path

namespace Resolution

/-! ## Following a path -/

/-- One step along a path: `..` leaves the last segment, `.` stays, and any
other segment is entered. Where there is nothing to leave, `..` leads nowhere.
-/
def step? (place : List Text) (s : Text) : Option (List Text) :=
  if s = ".." then if place = [] then none else some place.dropLast
  else if s = "." then some place
  else some (place ++ [s])

def follow? (place path : List Text) : Option (List Text) :=
  path.foldlM step? place

theorem follow?_cons (place path : List Text) (s : Text) :
    follow? place (s :: path) = (step? place s).bind fun there =>
      follow? there path :=
  List.foldlM_cons

theorem follow?_append (place path rest : List Text) :
    follow? place (path ++ rest) = (follow? place path).bind fun there =>
      follow? there rest :=
  List.foldlM_append

theorem follow?_dot (place path : List Text) :
    follow? place ("." :: path) = follow? place path := by
  have hdot : step? place "." = some place := by
    rw [step?, if_neg (by decide), if_pos rfl]
  rw [follow?_cons, hdot, Option.bind_some]

/-- As many steps up as there are segments leave all of them. -/
theorem follow?_up (place left : List Text) :
    follow? (place ++ left) (left.map fun _ => (".." : Text)) = some place := by
  rw [List.map_const']
  induction left using List.reverseRecOn with
  | nil => rw [List.append_nil]; rfl
  | append_singleton left s ih =>
    have hstep : step? (place ++ (left ++ [s])) ".." =
        some (place ++ left) := by
      rw [step?, if_pos rfl, if_neg (by simp), ← List.append_assoc,
        List.dropLast_concat]
    rw [List.length_append, List.length_singleton, List.replicate_succ,
      follow?_cons, hstep, Option.bind_some, ih]

theorem follow?_down
    {down : List Text} (h : ∀ s ∈ down, s ≠ "." ∧ s ≠ "..")
    (place : List Text) :
    follow? place down = some (place ++ down) := by
  induction down generalizing place with
  | nil => rw [List.append_nil]; rfl
  | cons s down ih =>
    obtain ⟨hs, hdown⟩ := List.forall_mem_cons.1 h
    have hstep : step? place s = some (place ++ [s]) := by
      rw [step?, if_neg hs.2, if_neg hs.1]
    rw [follow?_cons, hstep, Option.bind_some, ih hdown, List.append_assoc,
      List.singleton_append]

/-! ## The segments of a relative path -/

/-- The steps up and then down from a directory to a target. -/
def steps (base target : List Text) : List Text :=
  (Path.dropCommon base target).1.map (fun _ => (".." : Text)) ++
    (Path.dropCommon base target).2

theorem relativeSegments_cases (base target : List Text) :
    relativeSegments base target = ("." : Text) :: steps base target ∨
      relativeSegments base target = steps base target ∧
      (steps base target).head? = some (".." : Text) := by
  unfold relativeSegments
  dsimp only
  split
  next hup => exact .inr ⟨rfl, beq_iff_eq.1 hup⟩
  next => exact .inl rfl

theorem head?_relativeSegments (base target : List Text) :
    (relativeSegments base target).head? = some ("." : Text) ∨
      (relativeSegments base target).head? = some (".." : Text) := by
  rcases relativeSegments_cases base target with hdot | ⟨hsteps, hup⟩
  · exact .inl (by rw [hdot, List.head?_cons])
  · exact .inr (hsteps ▸ hup)

theorem follow?_steps
    {common left entered : List Text} (h : ∀ s ∈ entered, s ≠ "." ∧ s ≠ "..") :
    follow? (common ++ left) (steps (common ++ left) (common ++ entered)) =
      some (common ++ entered) := by
  -- More than `common` may be shared; the steps are those behind all that is.
  obtain ⟨more, hleft, hentered⟩ := Path.exists_dropCommon_eq left entered
  have hplain : ∀ s ∈ (Path.dropCommon left entered).2, s ≠ "." ∧ s ≠ ".." := by
    intro s hs
    apply h
    rw [hentered]
    exact List.mem_append_right more hs
  calc
    follow? (common ++ left) (steps (common ++ left) (common ++ entered)) =
        follow? (common ++ more ++ (Path.dropCommon left entered).1)
          ((Path.dropCommon left entered).1.map (fun _ => (".." : Text)) ++
            (Path.dropCommon left entered).2) := by
      rw [steps, Path.dropCommon_append, List.append_assoc, ← hleft]
    _ = follow? (common ++ more) (Path.dropCommon left entered).2 := by
      rw [follow?_append, follow?_up, Option.bind_some]
    _ = some (common ++ entered) := by
      rw [follow?_down hplain, List.append_assoc, ← hentered]

/-- The segments lead from the directory to the target. -/
theorem follow?_relativeSegments
    {base target common left entered : List Text}
    (hbase : base = common ++ left) (htarget : target = common ++ entered)
    (h : ∀ s ∈ entered, s ≠ "." ∧ s ≠ "..") :
    follow? base (relativeSegments base target) = some target := by
  have hsteps : follow? base (steps base target) = some target := by
    rw [hbase, htarget]
    exact follow?_steps h
  rcases relativeSegments_cases base target with hdot | ⟨hup, -⟩
  · rw [hdot, follow?_dot, hsteps]
  · rw [hup, hsteps]

theorem slash_notMem_of_mem_pathSegments
    {p s : Text} (h : s ∈ pathSegments p) :
    Path.slash ∉ s := by
  unfold pathSegments at h
  split at h
  next => cases h
  next => exact fun hslash => (Text.mem_and_ne_of_mem_splitOn h hslash).2 rfl

theorem slash_notMem_of_mem_relativeSegments
    {base target : Text} {s : Text}
    (h : s ∈ relativeSegments (pathSegments base) (pathSegments target)) :
    Path.slash ∉ s := by
  have hsteps : ∀ t ∈ steps (pathSegments base) (pathSegments target),
      Path.slash ∉ t := by
    intro t ht
    rcases List.mem_append.1 ht with hup | hdown
    · obtain ⟨-, -, rfl⟩ := List.mem_map.1 hup
      decide
    · obtain ⟨common, -, htarget⟩ :=
        Path.exists_dropCommon_eq (pathSegments base) (pathSegments target)
      apply slash_notMem_of_mem_pathSegments
      rw [htarget]
      exact List.mem_append_right common hdown
  rcases relativeSegments_cases (pathSegments base) (pathSegments target)
    with hdot | ⟨hup, -⟩
  · rcases List.mem_cons.1 (hdot ▸ h) with rfl | ht
    · decide
    · exact hsteps s ht
  · exact hsteps s (hup ▸ h)

theorem pathSegments_relativePath (base target : Text) :
    pathSegments (relativePath base target) =
    relativeSegments (pathSegments base) (pathSegments target) := by
  have hhead := head?_relativeSegments (pathSegments base) (pathSegments target)
  have hne : relativeSegments (pathSegments base) (pathSegments target) ≠
      [] := by
    intro hnil
    simp [hnil] at hhead
  have hsplit : Text.splitOn Path.slash (relativePath base target) =
      relativeSegments (pathSegments base) (pathSegments target) :=
    Text.splitOn_join_singleton hne fun s hs =>
      slash_notMem_of_mem_relativeSegments hs
  have hpath : relativePath base target ≠ [] := by
    intro hnil
    rw [hnil] at hsplit
    rw [← hsplit] at hhead
    revert hhead
    decide
  unfold pathSegments
  rw [if_neg (by simpa using hpath)]
  exact hsplit

/-! ## Imports -/

theorem relativePath_of_mem_imports
    {r : Registry} {d : Document} {e : ImportEdge}
    (h : e ∈ (d.resolve r).imports.imports) :
    e.relativePath = relativePath (directory d.importPath) e.importPath := by
  obtain ⟨x, -, rfl⟩ := List.mem_map.1 h
  rfl

/-- Seen from the directory of the importing document, an import is given by a
path that starts with `.` or `..`, and to follow it leads to the import unless
the import has such segments of its own behind what it shares with the
directory. -/
theorem relativePath_leads_back (importer : Document) (target : Text) :
    ((pathSegments
    (relativePath (directory importer.importPath) target)).head? =
    some ("." : Text) ∨
      (pathSegments
      (relativePath (directory importer.importPath) target)).head? =
      some (".." : Text)) ∧
    (∀ common left entered, pathSegments (directory importer.importPath) =
      common ++ left →
      pathSegments target = common ++ entered →
      (∀ s ∈ entered, s ≠ "." ∧ s ≠ "..") →
      follow? (pathSegments (directory importer.importPath))
        (pathSegments (relativePath (directory importer.importPath) target)) =
        some (pathSegments target)) ∧
    (∀ r, ∀ e ∈ (importer.resolve r).imports.imports, e.importPath = target →
      e.relativePath =
      relativePath (directory importer.importPath) target) := by
  rw [pathSegments_relativePath]
  refine ⟨head?_relativeSegments _ _, ?_, ?_⟩
  · intro common left entered hbase htarget hplain
    exact follow?_relativeSegments hbase htarget hplain
  · rintro r e he rfl
    exact relativePath_of_mem_imports he

/-- A document two directories below what it shares with the stable ones. -/
def outlying : Document :=
    { path := "unstable/a/a.xml", importPath := "p/unstable/a/a" }

theorem outlying_leads_back :
    relativePath (directory outlying.importPath) "p/stable/b/b" =
    "../../stable/b/b" ∧
      follow? (pathSegments (directory outlying.importPath))
        (pathSegments
        (relativePath (directory outlying.importPath) "p/stable/b/b")) =
          some (["p", "stable", "b", "b"].map Text.ofString) := by
  refine ⟨by decide, ?_⟩
  have hbase : pathSegments (directory outlying.importPath) =
      [Text.ofString "p"] ++ ["unstable", "a"].map Text.ofString := by decide
  have htarget : pathSegments "p/stable/b/b" =
      [Text.ofString "p"] ++ ["stable", "b", "b"].map Text.ofString := by decide
  have hplain : ∀ s ∈ ["stable", "b", "b"].map Text.ofString, s ≠ ("." : Text) ∧
    s ≠ (".." : Text) := by decide
  exact ((relativePath_leads_back outlying "p/stable/b/b").2.1 _ _ _ hbase
    htarget hplain).trans
    (congrArg some htarget)

end Resolution

end ProtocolCorpus
