import Mathlib.Order.Interval.Finset.Nat
import ProtocolCorpus.Proofs.Numerals
import ProtocolCorpus.Proofs.Registry

/-!
# There are enough aliases

An alias is refused only if it is empty, the alias of the root, or bound to
another import path. All numbered aliases of a document are different and none
is empty, so the table of bound aliases and the alias of the root have to hold
every one of them before a document goes without. A document binds one alias at
most. Hence no corpus with fewer documents than numbers runs out of aliases.
-/

namespace ProtocolCorpus

namespace Alias

variable {bound : AliasTable}

/-! ## When a document goes without an alias -/

def Refused (rules : NamingRules) (bound : AliasTable)
    (importPath name : Text) : Prop :=
  name = [] ∨ name = rules.rootAlias ∨ ∃ owner, bound[name]? = some owner ∧
    owner ≠ importPath

theorem usable_eq_false_iff {rules : NamingRules} {importPath name : Text} :
    usable rules bound importPath name = false ↔
    Refused rules bound importPath name := by
  rw [← Bool.not_eq_true, usable_iff, Refused]
  by_cases hempty : name = []
  · simp [hempty]
  · by_cases hroot : name = rules.rootAlias
    · simp [hroot]
    · simp [hempty, hroot]

def withNumber (d : Document) (n : Nat) : Text :=
  fallback d ++ "_" ++ Text.ofNat n

theorem withNumber_ne_nil (d : Document) (n : Nat) :
    withNumber d n ≠ [] := by
  simp [withNumber, Text.ofNat, Text.ofNatBase_ne_nil]

theorem withNumber_injective (d : Document) :
    Function.Injective (withNumber d) := by
  intro n k h
  have hnumerals : Text.ofNat n = Text.ofNat k := List.append_cancel_left h
  have hvalues := congrArg (Text.natOfDigits? 10) hnumerals
  rw [Text.natOfDigits?_ofNat, Text.natOfDigits?_ofNat] at hvalues
  exact Option.some.inj hvalues

theorem numbered?_eq_none_iff
    {ok : Text → Bool} {base : Text} {n count : Nat} :
    numbered? ok base n count = none ↔
      ∀ k, n ≤ k → k < n + count → ok (base ++ "_" ++ Text.ofNat k) =
      false := by
  induction count generalizing n with
  | zero =>
    refine iff_of_true rfl ?_
    intro k hlow hhigh
    omega
  | succ count ih =>
    rw [numbered?]
    cases hok : ok (base ++ "_" ++ Text.ofNat n) with
    | true =>
      refine iff_of_false (by simp) ?_
      intro hall
      have hfirst := hall n (Nat.le_refl n) (by omega)
      rw [hok] at hfirst
      cases hfirst
    | false =>
      rw [if_neg Bool.false_ne_true, ih]
      constructor
      · intro hall k hlow hhigh
        rcases Nat.eq_or_lt_of_le hlow with rfl | hlow
        · exact hok
        · exact hall k hlow (by omega)
      · intro hall k hlow hhigh
        exact hall k (by omega) (by omega)

/-- A document goes without an alias exactly if all candidates and all numbers
are refused. -/
theorem assign?_eq_none_iff {rules : NamingRules} {d : Document} :
    assign? rules bound d = none ↔
      (∀ c ∈ candidates d, Refused rules bound d.importPath
      (Naming.identifier c)) ∧
        ∀ n, 2 ≤ n → n ≤ maxSuffix →
        Refused rules bound d.importPath (withNumber d n) := by
  have hnumbers : numbered? (usable rules bound d.importPath) (fallback d) 2
      (maxSuffix - 1) = none ↔
      ∀ n, 2 ≤ n → n ≤ maxSuffix →
      Refused rules bound d.importPath (withNumber d n) := by
    rw [numbered?_eq_none_iff]
    simp only [usable_eq_false_iff, maxSuffix, withNumber]
    constructor
    · intro hall n hlow hhigh
      exact hall n hlow (by omega)
    · intro hall n hlow hhigh
      exact hall n hlow (by omega)
  unfold assign?
  dsimp only
  cases hfind : ((candidates d).map Naming.identifier).find?
    (usable rules bound d.importPath) with
  | some name =>
    refine iff_of_false (by simp) ?_
    rintro ⟨hall, -⟩
    obtain ⟨c, hc, rfl⟩ := List.mem_map.1 (List.mem_of_find?_eq_some hfind)
    have husable := List.find?_some hfind
    rw [usable_eq_false_iff.2 (hall c hc)] at husable
    cases husable
  | none =>
    have hcandidates : ∀ c ∈ candidates d, Refused rules bound d.importPath
        (Naming.identifier c) := by
      intro c hc
      have hnot := List.find?_eq_none.1 hfind _ (List.mem_map_of_mem hc)
      exact usable_eq_false_iff.1 (Bool.eq_false_of_not_eq_true hnot)
    dsimp only
    rw [hnumbers]
    exact (and_iff_right hcandidates).symm

/-- As long as a table is short of the numbers by two, one for the root, a
document is given an alias. -/
theorem assign?_ne_none_of_size (hsize : bound.size + 2 < maxSuffix)
    (rules : NamingRules) (d : Document) :
    assign? rules bound d ≠ none := by
  intro hnone
  obtain ⟨-, hrefused⟩ := assign?_eq_none_iff.1 hnone
  have hmaps : Set.MapsTo (withNumber d) (Finset.Icc 2 maxSuffix)
      (rules.rootAlias :: bound.keys).toFinset := by
    intro n hn
    obtain ⟨hlow, hhigh⟩ := Finset.mem_Icc.1 hn
    rw [Finset.mem_coe, List.mem_toFinset, List.mem_cons]
    rcases hrefused n hlow hhigh with hempty | hroot | ⟨owner, howner, -⟩
    · exact absurd hempty (withNumber_ne_nil d n)
    · exact .inl hroot
    · refine .inr ?_
      rw [Std.TreeMap.mem_keys, Std.TreeMap.mem_iff_contains,
        Std.TreeMap.contains_eq_isSome_getElem?, howner]
      rfl
  have hcard :=
    Finset.card_le_card_of_injOn _ hmaps (withNumber_injective d).injOn
  have hkeys := List.toFinset_card_le (rules.rootAlias :: bound.keys)
  rw [List.length_cons, Std.TreeMap.length_keys] at hkeys
  rw [Nat.card_Icc] at hcard
  omega

end Alias

namespace Registry

/-! ## Building a registry -/

theorem exists_add_eq_ok
    {r : Registry} {d : Document} (hnew : r.document? d.path = none)
    (hsize : r.aliases.size + 2 < Alias.maxSuffix) :
    ∃ r', r.add d = .ok r' ∧ r'.aliases.size ≤ r.aliases.size + 1 := by
  cases hroot : r.isRoot d with
  | true =>
    exact ⟨_, add_eq_ok_iff.2 ⟨hnew, .inl ⟨hroot, rfl⟩⟩,
      Std.TreeMap.size_insert_le⟩
  | false =>
    obtain ⟨name, hname⟩ :=
      Option.ne_none_iff_exists'.1
        (Alias.assign?_ne_none_of_size hsize r.rules d)
    exact ⟨_, add_eq_ok_iff.2 ⟨hnew, .inr ⟨name, hroot, hname, rfl⟩⟩,
      Std.TreeMap.size_insert_le⟩

theorem exists_build_eq_ok
    (rules : NamingRules) {docs : List Document}
    (hlength : docs.length + 2 ≤ Alias.maxSuffix)
    (hpaths : (docs.map Document.path).Nodup) :
    ∃ r, build rules docs = .ok r := by
  have hstart : Indexed [] { rules } ∧ ({ rules } : Registry).aliases.size ≤
    ([] : List Document).length :=
    ⟨indexed_nil rules, Nat.le_refl 0⟩
  refine Chain.exists_foldlM_eq_ok (P := fun done r => Indexed done r ∧
    r.aliases.size ≤ done.length)
    ?_ (List.nil_append docs).symm hstart
  rintro done d rest r rfl ⟨hindexed, hsize⟩
  have hnew : r.document? d.path = none := by
    rw [document?_eq_none_iff]
    intro m hm heq
    rw [List.map_append, List.map_cons, List.nodup_append] at hpaths
    refine hpaths.2.2 m.document ?_ d.path List.mem_cons_self heq
    rw [← hindexed.documents_map_path]
    exact List.mem_map_of_mem hm
  have hshort : r.aliases.size + 2 < Alias.maxSuffix := by
    rw [List.length_append, List.length_cons] at hlength
    omega
  obtain ⟨r', hadd, hsize'⟩ := exists_add_eq_ok hnew hshort
  refine ⟨r', hadd, hindexed.add hadd, ?_⟩
  rw [List.length_append, List.length_singleton]
  omega

/-- No corpus of up to 65534 documents runs out of aliases, and a single
document does so exactly if all its candidates and all its numbers are refused.
-/
theorem aliases_suffice (rules : NamingRules) :
    (∀ docs : List Document, docs.length ≤ 65534 →
    (docs.map Document.path).Nodup →
      ∃ r, build rules docs = .ok r) ∧
    ∀ (bound : AliasTable) (d : Document), Alias.assign? rules bound d = none ↔
      (∀ c ∈ Alias.candidates d, Alias.Refused rules bound d.importPath
      (Naming.identifier c)) ∧
        ∀ n, 2 ≤ n → n ≤ 65536 →
          Alias.Refused rules bound d.importPath
          (Alias.fallback d ++ "_" ++ Text.ofNat n) := by
  constructor
  · intro docs hlength hpaths
    refine exists_build_eq_ok rules ?_ hpaths
    rw [Alias.maxSuffix]
    omega
  · intro bound d
    exact Alias.assign?_eq_none_iff

/-- A table in which every number behind the alias of a document is bound to
an import path. -/
def exhausted (d : Document) (path : Text) : AliasTable :=
  (List.range' 2 65535).foldl
    (fun bound n => bound.insert (Alias.withNumber d n) path) {}

theorem getElem?_foldl_insert_withNumber
    {d : Document} {path : Text} {n : Nat} {ns : List Nat} {bound : AliasTable}
    (h : n ∈ ns ∨ bound[Alias.withNumber d n]? = some path) :
    (ns.foldl (fun bound k => bound.insert (Alias.withNumber d k) path)
      bound)[Alias.withNumber d n]? =
      some path := by
  induction ns generalizing bound with
  | nil => exact h.resolve_left List.not_mem_nil
  | cons k ns ih =>
    apply ih
    rw [Std.TreeMap.getElem?_insert]
    rcases h with hmem | hbound
    · rcases List.mem_cons.1 hmem with rfl | hmem
      · simp
      · exact .inl hmem
    · rw [hbound, ite_self]
      exact .inr rfl

/-- The sample gets its aliases. A document without content has no candidates,
and gets no alias where all numbers are bound to another import path. -/
theorem sample_aliases_suffice :
    (∃ r, build {} sample = .ok r) ∧
    Alias.assign? {} (exhausted {} "p/other") {} = none := by
  obtain ⟨hbuild, hassign⟩ := aliases_suffice {}
  refine ⟨hbuild sample (by decide) (by decide +kernel),
    (hassign _ _).2 ⟨?_, ?_⟩⟩
  · have hempty : ∀ c ∈ Alias.candidates {}, Naming.identifier c = [] := by
      decide +kernel
    intro c hc
    exact .inl (hempty c hc)
  · intro n hlow hhigh
    refine .inr
      (.inr ⟨"p/other", getElem?_foldl_insert_withNumber
      (.inl ?_), by decide +kernel⟩)
    rw [List.mem_range'_1]
    omega

end Registry

end ProtocolCorpus
