import Mathlib.Algebra.BigOperators.Group.List.Basic
import Mathlib.Data.List.Nodup
import ProtocolCorpus.Digest

/-!
# Digests of joined digests

A digest has 32 bytes, whatever is digested. So digests that are joined to one
text can be told apart again, and as long as no two of the texts in question
have the same digest, the digest of a content and of what it depends on
determines all of them.
-/

namespace ProtocolCorpus

namespace Digest

/-- A text with the length of a digest. -/
abbrev Block := { t : Text // t.length = 32 }

/-- No two of the texts have the same digest. -/
def CollisionFree (ts : List Text) : Prop :=
  ∀ s ∈ ts, ∀ t ∈ ts, sha256 s = sha256 t → s = t

/-- It is enough to look at the digests of the texts with repetitions left out.
-/
theorem collisionFree_of_nodup
    {ts us : List Text} (hsub : ∀ t ∈ ts, t ∈ us)
    (hnodup : (us.map sha256).Nodup) :
    CollisionFree ts := by
  intro s hs t ht heq
  exact List.inj_on_of_nodup_map hnodup (hsub s hs) (hsub t ht) heq

/-! ## The length of a digest -/

theorem length_bigEndian (n x : Nat) :
    (bigEndian n x).length = n := by
  induction n generalizing x with
  | zero => rfl
  | succ n ih => rw [bigEndian, List.length_append, ih, List.length_singleton]

theorem length_round (state : List UInt32) (kw : UInt32 × UInt32) :
    (round state kw).length = state.length := by
  unfold round
  split
  next => rfl
  next => rfl

theorem length_absorb (state : List UInt32) (block : Text) :
    (absorb state block).length = state.length := by
  have hmixed : ∀ kws : List (UInt32 × UInt32), (kws.foldl round state).length =
      state.length := by
    intro kws
    refine List.foldlRecOn (motive := fun s => s.length = state.length) kws
      round rfl ?_
    intro s hs kw _
    rw [length_round, hs]
  simp only [absorb, List.length_map, List.length_zip, hmixed, Nat.min_self]

theorem length_absorbAll (n : Nat) (state : List UInt32) (t : Text) :
    (absorbAll n state t).length = state.length := by
  induction n generalizing state t with
  | zero => rfl
  | succ n ih => rw [absorbAll, ih, length_absorb]

theorem length_sha256 (t : Text) :
    (sha256 t).length = 32 := by
  simp only [sha256, List.length_flatMap, length_bigEndian, List.map_const',
    List.sum_replicate, length_absorbAll]
  rfl

/-! ## Joined digests -/

/-- The place where one digest ends and the next begins is known. -/
theorem eq_of_flatten_eq
    {ds ds' : List Text} (hds : ∀ d ∈ ds, d.length = 32)
    (hds' : ∀ d ∈ ds', d.length = 32) (h : ds.flatten = ds'.flatten) :
    ds = ds' := by
  have hmap : ∀ {es : List Text}, (∀ d ∈ es, d.length = 32) →
      es.map List.length = List.replicate es.length 32 := fun hes =>
    List.map_eq_replicate_iff.2 hes
  have hcount : ds.length = ds'.length := by
    have hlength := congrArg List.length h
    rw [List.length_flatten, List.length_flatten, hmap hds, hmap hds',
      List.sum_replicate, List.sum_replicate] at hlength
    exact Nat.mul_right_cancel (by decide) hlength
  refine List.eq_iff_flatten_eq.2 ⟨h, ?_⟩
  rw [hmap hds, hmap hds', hcount]

theorem append_flatten_inj
    {content content' : Text} {ds ds' : List Text}
    (hcontent : content.length = 32) (hcontent' : content'.length = 32)
    (hds : ∀ d ∈ ds, d.length = 32) (hds' : ∀ d ∈ ds', d.length = 32) :
    content ++ ds.flatten = content' ++ ds'.flatten ↔ content = content' ∧
      ds = ds' := by
  constructor
  · intro h
    obtain ⟨hc, hflatten⟩ := List.append_inj h (hcontent.trans hcontent'.symm)
    exact ⟨hc, eq_of_flatten_eq hds hds' hflatten⟩
  · rintro ⟨rfl, rfl⟩
    rfl

end Digest

end ProtocolCorpus
