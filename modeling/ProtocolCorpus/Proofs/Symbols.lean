import ProtocolCorpus.Proofs.Parts
import ProtocolCorpus.Proofs.References
import ProtocolCorpus.Proofs.Sites
import ProtocolCorpus.Protocol.Validation

/-!
# When symbols read the same

A reference to an interface is printed as a symbol: the short name of its
target, behind the alias of the document that declares it and a dot if that is
another document. An alias has no dot, so a qualified symbol can be taken apart
again. What the symbol does not show is the first segment of the target.
-/

namespace ProtocolCorpus

namespace Reference

/-- A symbol with a qualifier shows the qualifier and the name. -/
theorem describe_eq_describe_iff
    {a b : Reference} (ha : 0x2E ∉ a.qualifier) (hb : 0x2E ∉ b.qualifier)
    (hqualified : a.qualifier = [] ↔ b.qualifier = []) :
    a.describe = b.describe ↔ a.qualifier = b.qualifier ∧ a.name = b.name := by
  unfold describe
  by_cases hlocal : a.qualifier = []
  · simp [hlocal, hqualified.1 hlocal]
  · have hother : b.qualifier ≠ [] := mt hqualified.2 hlocal
    simp only [List.isEmpty_iff, hlocal, hother, if_false]
    constructor
    · intro h
      -- both sides are cut at the first dot
      have hcutA : Text.cut 0x2E (a.qualifier ++ "." ++ a.name) =
        some (a.qualifier, a.name) :=
        Text.cut_eq_some_iff.2 ⟨by rw [List.append_assoc]; rfl, ha⟩
      have hcutB : Text.cut 0x2E (b.qualifier ++ "." ++ b.name) =
        some (b.qualifier, b.name) :=
        Text.cut_eq_some_iff.2 ⟨by rw [List.append_assoc]; rfl, hb⟩
      rw [h, hcutB] at hcutA
      obtain ⟨hqualifier, hname⟩ := Prod.mk.inj (Option.some.inj hcutA)
      exact ⟨hqualifier.symm, hname.symm⟩
    · rintro ⟨hqualifier, hname⟩
      rw [hqualifier, hname]

/-- The short name of an interface of the document itself is the symbol of an
interface of another one. -/
def Mimics (a b : Reference) : Prop :=
  a.qualifier = [] ∧ b.qualifier ≠ [] ∧ shortName a.target =
    b.qualifier ++ "." ++ shortName b.target

theorem describe_eq_iff_mimics
    {a b : Reference} (ha : a.qualifier = []) (hb : b.qualifier ≠ [])
    (hnameA : a.name = shortName a.target)
    (hnameB : b.name = shortName b.target) :
    a.describe = b.describe ↔ a.Mimics b := by
  simp [describe, Mimics, ha, hb, hnameA, hnameB]

end Reference

namespace Resolution

/-- What a reference has to be for its symbol to tell where it leads. -/
structure Shortened (name : Text) (a : Reference) : Prop where
  target : a.target = name
  name : a.name = shortName name
  /-- The qualifier ends at the first dot of the symbol. -/
  qualifier : 0x2E ∉ a.qualifier

theorem shortName_of_stripRoot?
    {name rest : Text} (h : stripRoot? "wl_" name = some rest) :
    shortName name = rest := by
  unfold stripRoot? at h
  split at h
  · cases h
  · split at h
    next suffix hstrip =>
      split at h
      next => cases h
      next hrest =>
        cases h
        have hcut : Text.cut 0x5F name = some (Text.ofString "wl", rest) := by
          rw [Text.cut_eq_some_iff, Text.stripFront?_eq_some_iff.1 hstrip]
          exact ⟨rfl, by decide⟩
        simp [shortName, hcut, hrest]
    next => cases h

theorem dot_notMem_of_tidy
    {t : Text} (ht : Naming.Tidy t) :
    0x2E ∉ t := by
  intro hdot
  exact absurd (ht.bytes 0x2E hdot) (by decide)

theorem dot_notMem_aliasName
    {docs : List Document} {r : Registry} (hr : Registry.Indexed docs r)
    (hrules : r.rules = {}) {m : Registration} (hm : m ∈ r.documents) :
    0x2E ∉ m.aliasName := by
  cases hroot : m.root with
  | true =>
    rw [hr.rootAlias m hm hroot, hrules]
    decide
  | false => exact dot_notMem_of_tidy (hr.otherAlias m hm hroot).2.tidy

/-- Whatever route a reference takes, its symbol is made from the short name of
its target. -/
theorem shortened_of_interface
    {docs : List Document} {r : Registry} (hr : Registry.Indexed docs r)
    (hrules : r.rules = {}) {d : Document} {name : Text} {t : Target}
    (h : interface r d name = .ok t) :
    Shortened name t.reference := by
  unfold interface at h
  split at h
  next i hlocal =>
    cases h
    refine ⟨rfl, ?_, List.not_mem_nil⟩
    exact congrArg shortName (Document.name_of_interface? hlocal)
  next =>
    rw [hrules] at h
    split at h
    next rest hroot =>
      cases h
      refine ⟨rfl, (shortName_of_stripRoot? hroot).symm, ?_⟩
      exact (by decide : (0x2E : UInt8) ∉ Text.ofString "wl")
    next =>
      obtain ⟨o, ho, ht⟩ := Chain.bind_eq_ok_iff.1 h
      obtain rfl := Chain.pure_eq_ok_iff.1 ht
      obtain ⟨hdeclared, rfl⟩ :=
        Registry.mem_owners_iff.1 (mem_owners_of_owner_eq_ok ho)
      obtain ⟨e, -, m, hm, -, hmem⟩ := hr.exists_declaring hdeclared
      obtain ⟨i, -, rfl⟩ := List.mem_map.1 hmem
      exact ⟨rfl, rfl, dot_notMem_aliasName hr hrules hm⟩

/-- Symbols read the same exactly if qualifiers and short names agree, or if one
of them is the short name of an interface of the document itself and spells the
other one. -/
theorem Shortened.describe_eq_iff
    {name name' : Text} {a b : Reference} (ha : Shortened name a)
    (hb : Shortened name' b) :
    a.describe = b.describe ↔
      (a.qualifier = b.qualifier ∧ shortName a.target = shortName b.target) ∨
      a.Mimics b ∨ b.Mimics a := by
  have hnameA : a.name = shortName a.target := by rw [ha.name, ha.target]
  have hnameB : b.name = shortName b.target := by rw [hb.name, hb.target]
  by_cases hqualifierA : a.qualifier = []
  · by_cases hqualifierB : b.qualifier = []
    · rw [Reference.describe_eq_describe_iff ha.qualifier hb.qualifier
        (by simp [hqualifierA, hqualifierB]), hnameA, hnameB]
      simp [Reference.Mimics, hqualifierA, hqualifierB]
    · rw [Reference.describe_eq_iff_mimics hqualifierA hqualifierB
        hnameA hnameB]
      simp [Reference.Mimics, hqualifierA, hqualifierB, Ne.symm hqualifierB]
  · by_cases hqualifierB : b.qualifier = []
    · rw [eq_comm, Reference.describe_eq_iff_mimics hqualifierB hqualifierA
        hnameB hnameA]
      simp [Reference.Mimics, hqualifierA, hqualifierB]
    · rw [Reference.describe_eq_describe_iff ha.qualifier hb.qualifier
        (by simp [hqualifierA, hqualifierB]), hnameA, hnameB]
      simp [Reference.Mimics, hqualifierA, hqualifierB]

end Resolution

/-! ## The symbols of a resolved document -/

namespace Document

/-- In a document that has passed resolution, every reference to an interface
has a symbol. -/
theorem exists_shortened_of_resolve_ok
    {docs : List Document} {r : Registry}
    (hbuild : Registry.build {} docs = .ok r) {d : Document}
    (hok : (d.resolve r).ok = true) {s : Site}
    (hs : s ∈ (d.resolve r).document.sites)
    (hwritten : s.argument.interface ≠ []) :
    ∃ a, s.argument.resolvedInterface = some a ∧
      Resolution.Shortened s.argument.interface a := by
  obtain ⟨hrules, hr⟩ := Registry.indexed_of_build hbuild
  change s ∈ (Resolution.document r d).sites at hs
  rw [Resolution.sites_document] at hs
  obtain ⟨u, hu, rfl⟩ := List.mem_map.1 hs
  change u.argument.interface ≠ [] at hwritten
  obtain ⟨t, ht⟩ :=
    Resolution.exists_interface_of_foldl
      (Resolution.not_failed_of_resolve_ok hok) hu hwritten
  refine ⟨t.reference, ?_, Resolution.shortened_of_interface hr hrules ht⟩
  simp [Resolution.resolvedSite, Resolution.argument, ht, hwritten]

/-- Two references of a resolved document are printed as one symbol exactly if
they lead to one name space and their targets have one short name, or if one
target is declared in the document itself and its short name spells the symbol
of the other one. -/
theorem describe_eq_iff_of_resolve_ok
    {docs : List Document} {r : Registry}
    (hbuild : Registry.build {} docs = .ok r) {d : Document}
    (hok : (d.resolve r).ok = true) {s t : Site}
    (hs : s ∈ (d.resolve r).document.sites)
    (ht : t ∈ (d.resolve r).document.sites)
    (hswritten : s.argument.interface ≠ [])
    (htwritten : t.argument.interface ≠ []) :
    ∃ a b, s.argument.resolvedInterface = some a ∧
      t.argument.resolvedInterface = some b ∧
      a.target = s.argument.interface ∧ b.target = t.argument.interface ∧
      (a.describe = b.describe ↔
        (a.qualifier = b.qualifier ∧ shortName a.target = shortName b.target) ∨
          a.Mimics b ∨ b.Mimics a) := by
  obtain ⟨a, ha, hashort⟩ :=
    exists_shortened_of_resolve_ok hbuild hok hs hswritten
  obtain ⟨b, hb, hbshort⟩ :=
    exists_shortened_of_resolve_ok hbuild hok ht htwritten
  exact ⟨a, b, ha, hb, hashort.target, hbshort.target,
    hashort.describe_eq_iff hbshort⟩

/-- A document that declares an interface with a dot in its name, next to a
reference to the root. -/
def dotted : Document where
  path := "a.xml"
  importPath := "p/a"
  protocol := some {
    name := "shell"
    interfaces := [{
      name := "sh_wl.surface"
      requests := [{
        name := "open"
        args := [
          { name := "own", kind := .object, interface := "sh_wl.surface" },
          { name := "root", kind := .object,
            interface := "wl_surface" }] }] }] }

/-- The interface with the dot mimics the one of the root. -/
theorem dotted_describe_eq :
    ∃ r s t, Registry.build {} [dotted] = .ok r ∧ (dotted.resolve r).ok = true ∧
      s ∈ (dotted.resolve r).document.sites ∧
      t ∈ (dotted.resolve r).document.sites ∧
      s.argument.interface = "sh_wl.surface" ∧ t.argument.interface =
      "wl_surface" ∧
      ∃ a b, s.argument.resolvedInterface = some a ∧
      t.argument.resolvedInterface = some b ∧
        a.target = s.argument.interface ∧ b.target = t.argument.interface ∧
        (a.describe = b.describe ↔
          (a.qualifier = b.qualifier ∧ shortName a.target =
          shortName b.target) ∨
            a.Mimics b ∨ b.Mimics a) := by
  have hbuild : (Registry.build {} [dotted]).map (fun r =>
      ((dotted.resolve r).ok, (dotted.resolve r).document.sites.map fun s =>
      s.argument.interface)) =
      .ok (true, [Text.ofString "sh_wl.surface", "wl_surface"]) := by
    decide +kernel
  obtain ⟨r, hr, hresolved⟩ := Chain.map_eq_ok_iff.1 hbuild
  obtain ⟨hok, hsites⟩ := Prod.mk.inj hresolved
  have hfound : ∀ x ∈ [Text.ofString "sh_wl.surface", "wl_surface"],
      ∃ s ∈ (dotted.resolve r).document.sites, s.argument.interface = x := by
    intro x hx
    rw [← hsites] at hx
    exact List.mem_map.1 hx
  obtain ⟨s, hs, hown⟩ := hfound "sh_wl.surface" (by decide)
  obtain ⟨t, ht, hroot⟩ := hfound "wl_surface" (by decide)
  exact ⟨r, s, t, hr, hok, hs, ht, hown, hroot,
    describe_eq_iff_of_resolve_ok hr hok hs ht (by rw [hown]; decide)
    (by rw [hroot]; decide)⟩

/-- A document that declares two interfaces of one short name and refers to
both. -/
def homonyms : Document where
  path := "a.xml"
  importPath := "p/a"
  protocol := some {
    name := "shell"
    interfaces := [
      { name := "sh_window"
        requests := [{
          name := "open"
          args := [
            { name := "a", kind := .object, interface := "sh_window" },
            { name := "b", kind := .object, interface := "tab_window" }] }] },
      { name := "tab_window" }] }

/-- The document is valid and resolves, and both references are printed as
`window`. -/
theorem homonyms_share_symbol :
    homonyms.validate.valid = true ∧
      (Registry.build {} [homonyms]).map (fun r =>
          ((homonyms.resolve r).ok,
          (homonyms.resolve r).document.sites.map fun s =>
            s.argument.resolvedInterface.map fun a => (a.target, a.describe))) =
        .ok (true,
          [some (Text.ofString "sh_window", Text.ofString "window"),
          some ("tab_window", "window")]) := by
  decide +kernel

end Document

end ProtocolCorpus
