import ProtocolCorpus.Proofs.OwnerIndex
import ProtocolCorpus.Proofs.Parts

/-!
# References to enumerations of other interfaces

A reference to an enumeration of an interface is looked up as the interface is:
in the document itself, in the root protocol, or among the declarations of the
corpus. The two lookups go through the same cases side by side. So they succeed
and fail together, lead to the same place, and the enumeration is found exactly
if the interface that the reference points to declares it.
-/

namespace ProtocolCorpus

namespace Resolution

variable {enumName : Text}

/-! ## The cases of a lookup -/

/-- Whether a declaration is found does not depend on the codes that are
reported otherwise. -/
theorem owner_cases (r : Registry) (d : Document) (name : Text) :
    (∀ unresolved ambiguous, owner r d name unresolved ambiguous =
    .error { code := unresolved, name }) ∨
      (∃ o, ∀ unresolved ambiguous, owner r d name unresolved ambiguous =
      .ok o) ∨
      ∃ candidates, ∀ unresolved ambiguous,
        owner r d name unresolved ambiguous =
        .error { code := ambiguous, name, candidates } := by
  simp only [owner_eq_choose, choose]
  generalize r.owners name = owners
  cases owners.isEmpty with
  | true => exact .inl fun _ _ => rfl
  | false =>
    refine .inr ?_
    rcases narrow ⟨name, d.importNames⟩ owners NarrowingStep.cascade
      with _ | ⟨o, _ | ⟨p, rest⟩⟩
    · exact .inr ⟨[], fun _ _ => rfl⟩
    · exact .inl ⟨o, fun _ _ => rfl⟩
    · exact .inr ⟨o :: p :: rest, fun _ _ => rfl⟩

/-- The interface that a reference of a document points to: the declaration
found in another document, the interface of the document itself, or the one of
the root document, if that declares it. -/
def meant? (r : Registry) (d : Document) (t : Target) : Option Interface :=
  match t.owner with
  | some o => some o.declaration
  | none =>
    (d.interface? t.reference.target).or
      ((r.rootOwner? t.reference.target).map Owner.declaration)

/-- The meaning of a reference to an enumeration of the interface that `t`
points to. -/
def enumOf (r : Registry) (d : Document) (t : Target)
    (enumName : Text) : EnumTarget where
  reference := withEnum { t.reference with
      name := t.reference.name ++ "_" ++ enumName } (meant? r d t) enumName
  owner := t.owner

/-- The outcomes of looking up an interface and an enumeration of it, side by
side. -/
inductive Parallel (r : Registry) (d : Document) (name enumName : Text) :
    Except LookupError Target → Except LookupError EnumTarget → Prop
  | found (t : Target) : Parallel r d name enumName (.ok t)
    (.ok (enumOf r d t enumName))
  | unresolved : Parallel r d name enumName
      (.error { code := .unresolvedInterface, name })
      (.error { code := .unresolvedEnumOwner, name })
  | ambiguous (candidates : List Owner) : Parallel r d name enumName
      (.error { code := .ambiguousInterface, name, candidates })
      (.error { code := .ambiguousEnumOwner, name, candidates })

theorem cut_dotted
    {name : Text} (hname : 0x2E ∉ name) (enumName : Text) :
    Text.cut 0x2E (name ++ "." ++ enumName) = some (name, enumName) := by
  rw [Text.cut_eq_some_iff]
  refine ⟨?_, hname⟩
  rw [List.append_assoc]
  rfl

theorem parallel_lookup
    (r : Registry) (d : Document) (enclosing : Interface) {name : Text}
    (hname : 0x2E ∉ name) (enumName : Text) :
    Parallel r d name enumName (interface r d name)
      (enumeration r d enclosing (name ++ "." ++ enumName)) := by
  unfold interface enumeration
  rw [cut_dotted hname]
  dsimp only
  cases hown : d.interface? name with
  | some i =>
    have hsame : i.name = name := Document.name_of_interface? hown
    have htarget : localEnum i enumName =
        enumOf r d { reference := { name := i.short, target := name } }
        enumName := by
      simp [localEnum, enumOf, meant?, hown, hsame]
    dsimp only
    rw [htarget]
    exact .found _
  | none =>
    dsimp only
    cases hroot : stripRoot? r.rules.rootStart name with
    | some rest =>
      have htarget : (r.rootOwner? name).map Owner.declaration =
          meant? r d
          { reference := { qualifier := r.rules.rootAlias, name := rest,
                           target := name } } := by
        simp [meant?, hown]
      dsimp only
      rw [htarget]
      exact .found _
    | none =>
      dsimp only
      rcases owner_cases r d name with hnone | ⟨o, ho⟩ | ⟨candidates, hmany⟩
      · rw [hnone, hnone]
        exact .unresolved
      · rw [ho, ho]
        exact .found _
      · rw [hmany, hmany]
        exact .ambiguous candidates

/-! ## What the interface says of the enumeration -/

theorem found_withEnum_iff {reference : Reference} {i? : Option Interface} :
    (withEnum reference i? enumName).found = true ↔ ∃ i ∈ i?, ∃ e ∈ i.enums,
    e.name = enumName := by
  have hdeclared : (i?.bind fun i => i.enum? enumName).isSome = true ↔
      ∃ i ∈ i?, ∃ e ∈ i.enums, e.name = enumName := by
    cases i? with
    | none => simp
    | some i => simp [Interface.enum?]
  rw [← hdeclared, withEnum]
  split
  next h => simp [h]
  next h => simp [h]

theorem bitfield_withEnum_iff {reference : Reference} {i? : Option Interface} :
    (withEnum reference i? enumName).bitfield = true ↔
      ∃ i ∈ i?, ∃ e, i.enum? enumName = some e ∧ e.bitfield = true := by
  have hdeclared :
      (∃ e, (i?.bind fun i => i.enum? enumName) = some e ∧ e.bitfield = true) ↔
      ∃ i ∈ i?, ∃ e, i.enum? enumName = some e ∧ e.bitfield = true := by
    cases i? with
    | none => simp
    | some i => simp
  rw [← hdeclared, withEnum]
  split
  next h => simp [h]
  next h => simp [h]

/-- Where no two enumerations have the same name, the first of a name is the
only one. -/
theorem exists_enum?_iff {i : Interface}
    (hnodup : (i.enums.map Enumeration.name).Nodup) {P : Enumeration → Prop} :
    (∃ e, i.enum? enumName = some e ∧ P e) ↔ ∃ e ∈ i.enums, e.name = enumName ∧
      P e := by
  constructor
  · rintro ⟨e, he, hP⟩
    have hname : e.name = enumName := by simpa using List.find?_some he
    exact ⟨e, List.mem_of_find?_eq_some he, hname, hP⟩
  · rintro ⟨e, he, rfl, hP⟩
    refine ⟨e, ?_, hP⟩
    cases hfind : i.enum? e.name with
    | none =>
      exact absurd (beq_self_eq_true e.name) (List.find?_eq_none.1 hfind e he)
    | some f =>
      have hname : f.name = e.name := by simpa using List.find?_some hfind
      rw [List.inj_on_of_nodup_map hnodup
        (List.mem_of_find?_eq_some hfind) he hname]

/-- How the outcome of looking up the enumeration `enumName` of the interface
`name` has to follow the outcome of looking up the interface. -/
structure FollowsInterface (r : Registry) (d : Document) (name enumName : Text)
    (x : Except LookupError Target) (y : Except LookupError EnumTarget) :
    Prop where
  ok_iff : (∃ u, y = .ok u) ↔ ∃ t, x = .ok t
  reference_eq : ∀ t u, x = .ok t → y = .ok u →
    u.reference.qualifier = t.reference.qualifier ∧ u.reference.target =
    t.reference.target ∧
      u.owner = t.owner ∧ u.reference.name = t.reference.name ++ "_" ++ enumName
  error_eq : ∀ e f, x = .error e → y = .error f →
    (e.code = .unresolvedInterface ∧ f.code = .unresolvedEnumOwner ∨
      e.code = .ambiguousInterface ∧ f.code = .ambiguousEnumOwner) ∧
      f.candidates = e.candidates
  /-- The enumeration is found if the interface that is pointed to declares it.
  -/
  found_iff : ∀ t u, x = .ok t → y = .ok u →
    (u.reference.found = true ↔ ∃ i ∈ meant? r d t, ∃ e ∈ i.enums, e.name =
    enumName)
  /-- It is a bit field if the first declaration says so, which is the only one
  in a valid document. -/
  bitfield_iff : ∀ t u, x = .ok t → y = .ok u →
    (u.reference.bitfield = true ↔
      ∃ i ∈ meant? r d t, ∃ e, i.enum? enumName = some e ∧ e.bitfield = true) ∧
    ∀ i ∈ meant? r d t, (i.enums.map Enumeration.name).Nodup →
      (u.reference.bitfield = true ↔ ∃ e ∈ i.enums, e.name = enumName ∧
      e.bitfield = true)
  /-- What is looked up in the root protocol is what the root document itself
  finds. -/
  root_eq : ∀ rules docs, Registry.build rules docs = .ok r →
    (r.rootOwner? name).map Owner.declaration =
    (rules.rootOf? docs).bind fun e => e.interface? name

/-- References to enumerations of interfaces follow references to the
interfaces. -/
theorem followsInterface_enumeration
    (r : Registry) (d : Document) (enclosing : Interface) {name : Text}
    (hname : 0x2E ∉ name) (enumName : Text) :
    FollowsInterface r d name enumName (interface r d name)
      (enumeration r d enclosing (name ++ "." ++ enumName)) := by
  have hroot : ∀ rules docs, Registry.build rules docs = .ok r →
      (r.rootOwner? name).map Owner.declaration =
        (rules.rootOf? docs).bind fun e => e.interface? name := by
    intro rules docs hbuild
    obtain ⟨rfl, hindexed⟩ := Registry.indexed_of_build hbuild
    exact hindexed.rootOwner?_map_declaration name
  generalize hx : interface r d name = x
  generalize hy : enumeration r d enclosing (name ++ "." ++ enumName) = y
  have hparallel : Parallel r d name enumName x y := by
    rw [← hx, ← hy]
    exact parallel_lookup r d enclosing hname enumName
  cases hparallel with
  | found t =>
    constructor
    case ok_iff => simp
    case reference_eq =>
      rintro t' u ⟨⟩ ⟨⟩
      simp [enumOf, toReference_withEnum]
    case error_eq =>
      rintro e f ⟨⟩
    case found_iff =>
      rintro t' u ⟨⟩ ⟨⟩
      exact found_withEnum_iff
    case bitfield_iff =>
      rintro t' u ⟨⟩ ⟨⟩
      refine ⟨bitfield_withEnum_iff, ?_⟩
      intro i hi hnodup
      rw [enumOf, bitfield_withEnum_iff, ← exists_enum?_iff hnodup]
      simp [Option.mem_def.1 hi]
    case root_eq => exact hroot
  | unresolved =>
    constructor
    case ok_iff => simp
    case error_eq =>
      rintro e f ⟨⟩ ⟨⟩
      exact ⟨.inl ⟨rfl, rfl⟩, rfl⟩
    case root_eq => exact hroot
    all_goals
      rintro t u ⟨⟩
  | ambiguous candidates =>
    constructor
    case ok_iff => simp
    case error_eq =>
      rintro e f ⟨⟩ ⟨⟩
      exact ⟨.inr ⟨rfl, rfl⟩, rfl⟩
    case root_eq => exact hroot
    all_goals
      rintro t u ⟨⟩

/-- A document that declares an enumeration `mode`. -/
def shell : Document where
  path := "a.xml"
  importPath := "p/a"
  protocol :=
    some { name := "shell",
           interfaces :=
             [{ name := "sh_window", enums := [{ name := "mode" }] }] }

/-- The document with a root that declares a bit field `mode`, and another
document that declares nothing of the name. -/
def modes : List Document :=
  let seat : Interface :=
    { name := "wl_seat", enums := [{ name := "mode", bitfield := true }] }
  [shell,
    { path := "b.xml", importPath := "p/b",
      protocol := some { name := "wayland", interfaces := [seat] } },
    { path := "c.xml", importPath := "p/c",
      protocol :=
        some { name := "tablet", interfaces := [{ name := "zwp_tool" }] } }]

/-- Interfaces of the document itself, of the root, of neither though named like
one of the root, of the other document, and of none. -/
def modeOwners : List Text :=
  ["sh_window", "wl_seat", "wl_lost", "zwp_tool", "xx_none"].map Text.ofString

theorem followsInterface_modes :
    ∃ r, Registry.build {} modes = .ok r ∧
      (∀ name ∈ modeOwners, 0x2E ∉ name ∧
      FollowsInterface r shell name "mode" (interface r shell name)
        (enumeration r shell {} (name ++ "." ++ Text.ofString "mode"))) ∧
      (modeOwners.map fun name =>
        (enumeration r shell {} (name ++ Text.ofString ".mode")).toOption.map
        fun u =>
          (u.reference.describe, u.reference.found, u.reference.bitfield)) =
        [some (Text.ofString "window_mode", true, false),
          some ("wl.seat_mode", true, true),
          some ("wl.lost_mode", false, false),
            some ("zwp_tool.tool_mode", false, false), none] := by
  have hbuild : (Registry.build {} modes).map
    (fun r => modeOwners.map fun name =>
      (enumeration r shell {} (name ++ Text.ofString ".mode")).toOption.map
      fun u =>
        (u.reference.describe, u.reference.found, u.reference.bitfield)) =
      .ok [some (Text.ofString "window_mode", true, false),
        some ("wl.seat_mode", true, true),
        some ("wl.lost_mode", false, false),
          some ("zwp_tool.tool_mode", false, false), none] := by
    cbv
  have hnames : ∀ name ∈ modeOwners, 0x2E ∉ name := by
    decide +kernel
  obtain ⟨r, hr, hmodes⟩ := Chain.map_eq_ok_iff.1 hbuild
  refine ⟨r, hr, ?_, hmodes⟩
  intro name hname
  exact ⟨hnames name hname, followsInterface_enumeration r shell {}
    (hnames name hname) "mode"⟩

end Resolution

end ProtocolCorpus
