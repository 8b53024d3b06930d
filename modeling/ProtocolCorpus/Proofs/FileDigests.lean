import ProtocolCorpus.Proofs.Digest
import ProtocolCorpus.Proofs.Path
import ProtocolCorpus.Source.File

/-!
# The digest of all files

All files are digested as one text: for each its path, a zero byte and the
digest of its content. Nothing tells how many files there are or how long a path
is, and a digest may have zero bytes of its own. But the first zero byte ends
the first path as long as paths have none, and the digest behind it has 32
bytes. So the text can be cut up again, file by file, and determines the paths
and the digests in their order.
-/

namespace ProtocolCorpus

/-! ## Texts with zero bytes between them -/

theorem Text.append_zero_inj
    {s s' t t' : Text} (hs : (0 : UInt8) ∉ s) (hs' : (0 : UInt8) ∉ s')
    (h : s ++ 0 :: t = s' ++ 0 :: t') :
    s = s' ∧ t = t' := by
  induction s generalizing s' with
  | nil =>
    cases s' with
    | nil => exact ⟨rfl, (List.cons.inj h).2⟩
    | cons b s' =>
      have hb : b = 0 := (List.cons.inj h).1.symm
      exact absurd (hb ▸ List.mem_cons_self) hs'
  | cons a s ih =>
    cases s' with
    | nil =>
      have ha : a = 0 := (List.cons.inj h).1
      exact absurd (ha ▸ List.mem_cons_self) hs
    | cons b s' =>
      rw [List.mem_cons, not_or] at hs hs'
      obtain ⟨hab, hrest⟩ := List.cons.inj h
      obtain ⟨hs, ht⟩ := ih hs.2 hs'.2 hrest
      exact ⟨by rw [hab, hs], ht⟩

namespace Source

/-- The text that all files are digested as can be cut up again. -/
theorem eq_of_flatMap_eq
    {fs gs : List File}
    (hfs : ∀ f ∈ fs, (0 : UInt8) ∉ Path.clean f.path ∧ f.digest.length = 32)
    (hgs : ∀ g ∈ gs, (0 : UInt8) ∉ Path.clean g.path ∧ g.digest.length = 32)
    (h : fs.flatMap (fun f => Path.clean f.path ++ [0] ++ f.digest) =
      gs.flatMap fun g => Path.clean g.path ++ [0] ++ g.digest) :
    fs.map (fun f => (Path.clean f.path, f.digest)) = gs.map fun g =>
      (Path.clean g.path, g.digest) := by
  induction fs generalizing gs with
  | nil =>
    cases gs with
    | nil => rfl
    | cons g gs => simp at h
  | cons f fs ih =>
    cases gs with
    | nil => simp at h
    | cons g gs =>
      have hcut : ∀ p d rest : Text, p ++ [0] ++ d ++ rest =
        p ++ 0 :: (d ++ rest) := by simp
      rw [List.flatMap_cons, List.flatMap_cons, hcut, hcut] at h
      obtain ⟨hf, hfs⟩ := List.forall_mem_cons.1 hfs
      obtain ⟨hg, hgs⟩ := List.forall_mem_cons.1 hgs
      obtain ⟨hpath, hrest⟩ := Text.append_zero_inj hf.1 hg.1 h
      obtain ⟨hdigest, hrest⟩ := List.append_inj hrest (hf.2.trans hg.2.symm)
      rw [List.map_cons, List.map_cons, hpath, hdigest, ih hfs hgs hrest]

namespace Files

variable {s : Files}

/-! ## File sets throughout a run -/

inductive Call
  | add (path content : Text) (treatment : Treatment)
  | load (path raw : Text)
  | addFromMemory (path content : Text)
  | withBase (dir : Text)

def perform (s : Files) : Call → Files
  | .add path content treatment => (s.add path content treatment).1
  | .load path raw => (s.load path raw).1
  | .addFromMemory path content => (s.addFromMemory path content).1
  | .withBase dir => s.withBase dir

def run (calls : List Call) : Files :=
  calls.foldl perform {}

/-- All paths are clean, and all digests are those of the contents. -/
def Sound (s : Files) : Prop :=
  ∀ f ∈ s.files.toList, Path.clean f.path = f.path ∧
    f.digest = Digest.sha256 f.content

theorem Sound.add (h : s.Sound) (path content : Text) (treatment : Treatment) :
    (s.add path content treatment).1.Sound := by
  intro f hf
  rw [Files.add, Array.toList_push] at hf
  rcases List.mem_append.1 hf with hf | hf
  · exact h f hf
  · rw [List.mem_singleton.1 hf]
    exact ⟨Path.clean_clean path, rfl⟩

theorem Sound.perform (h : s.Sound) (call : Call) :
    (s.perform call).Sound := by
  cases call with
  | add path content treatment => exact h.add path content treatment
  | load path raw => exact h.add path _ _
  | addFromMemory path content => exact h.add path content _
  | withBase dir => exact h

theorem sound_run (calls : List Call) :
    (run calls).Sound :=
  List.foldlRecOn calls perform (by simp [Sound]) fun _ h call _ =>
    h.perform call

def entries (s : Files) : List (Text × Text) :=
  s.files.toList.map fun f => (f.path, f.digest)

theorem Sound.entries_eq (h : s.Sound) :
    s.entries = s.files.toList.map fun f => (Path.clean f.path, f.digest) :=
  List.map_congr_left fun f hf => by rw [(h f hf).1]

/-- File sets without a zero byte in a path are digested as the same text
exactly if they have as many files, with the same paths and digests in the same
order. -/
theorem digestInput_run_eq_iff
    {calls calls' : List Call}
    (h : ∀ f ∈ (run calls).files.toList, (0 : UInt8) ∉ f.path)
    (h' : ∀ f ∈ (run calls').files.toList, (0 : UInt8) ∉ f.path) :
    (run calls).digestInput = (run calls').digestInput ↔ (run calls).entries =
      (run calls').entries := by
  have hcut : ∀ {calls : List Call},
      (∀ f ∈ (run calls).files.toList, (0 : UInt8) ∉ f.path) →
      ∀ f ∈ (run calls).files.toList, (0 : UInt8) ∉ Path.clean f.path ∧
      f.digest.length = 32 := by
    intro calls h f hf
    obtain ⟨hpath, hdigest⟩ := sound_run calls f hf
    rw [hpath, hdigest, Digest.length_sha256]
    exact ⟨h f hf, rfl⟩
  rw [(sound_run calls).entries_eq, (sound_run calls').entries_eq]
  constructor
  · exact eq_of_flatMap_eq (hcut h) (hcut h')
  · intro heq
    have hjoin :=
      congrArg (List.flatMap fun e : Text × Text => e.1 ++ [0] ++ e.2) heq
    rwa [List.flatMap_map, List.flatMap_map] at hjoin

/-- A file from storage and one from memory, with a new base in between. -/
def mixed : List Call :=
  [.load "./a.xml" "x\r\n", .withBase "/c", .addFromMemory "b.xml" ""]

theorem digestInput_mixed :
    (∀ f ∈ (run mixed).files.toList, (0 : UInt8) ∉ f.path) ∧
      (run mixed).digestInput =
      (run [.addFromMemory "a.xml" "x\n", .load "d/../b.xml" ""]).digestInput ∧
      (run mixed).digestInput ≠ (run mixed.reverse).digestInput := by
  have hpaths : ∀ f ∈ (run mixed).files.toList, (0 : UInt8) ∉ f.path := by
    decide +kernel
  refine ⟨hpaths, ?_, ?_⟩
  · exact (digestInput_run_eq_iff hpaths (by decide +kernel)).2 rfl
  · intro heq
    have hentries := (digestInput_run_eq_iff hpaths (by decide +kernel)).1 heq
    exact absurd (congrArg (List.map Prod.fst) hentries) (by decide +kernel)

end Files

end Source

end ProtocolCorpus
