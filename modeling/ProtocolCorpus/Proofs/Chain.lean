/-!
# Chains of steps that can fail

What the success of a chain says of its steps: every step succeeded, and the
result is made of what the steps gave.
-/

namespace ProtocolCorpus.Chain

variable {ε α β σ : Type} {x : Except ε α} {f : α → Except ε β} {as : List α}

theorem bind_eq_ok_iff {b : β} :
    x >>= f = .ok b ↔ ∃ a, x = .ok a ∧ f a = .ok b := by
  cases x with
  | error e => simp [bind, Except.bind]
  | ok a => simp [bind, Except.bind]

theorem bind_eq_error_iff {e : ε} :
    x >>= f = .error e ↔ x = .error e ∨ ∃ a, x = .ok a ∧ f a = .error e := by
  cases x with
  | error e => simp [bind, Except.bind]
  | ok a => simp [bind, Except.bind]

theorem pure_eq_ok_iff
    {a b : α} :
    (pure a : Except ε α) = .ok b ↔ a = b := by
  simp [pure, Except.pure]

theorem map_eq_ok_iff {f : α → β} {b : β} :
    x.map f = .ok b ↔ ∃ a, x = .ok a ∧ f a = b := by
  cases x with
  | error e => simp [Except.map]
  | ok a => simp [Except.map]

theorem toOption_eq_some_iff {a : α} :
    x.toOption = some a ↔ x = .ok a := by
  cases x with
  | error e => simp [Except.toOption]
  | ok b => simp [Except.toOption]

/-- If a step that succeeds only computes `g`, so does the row of steps along a
list. -/
theorem eq_map_of_mapM_eq_ok {g : α → β} (hf : ∀ a b, f a = .ok b → b = g a)
    {bs : List β} (h : as.mapM f = .ok bs) :
    bs = as.map g := by
  induction as generalizing bs with
  | nil =>
    rw [List.mapM_nil, pure_eq_ok_iff] at h
    rw [← h, List.map_nil]
  | cons a as ih =>
    simp only [List.mapM_cons, bind_eq_ok_iff, pure_eq_ok_iff] at h
    obtain ⟨b, hb, bs', hbs', rfl⟩ := h
    rw [List.map_cons, ← hf a b hb, ← ih hbs']

theorem mapM_eq_ok_map {g : α → β} (hf : ∀ a ∈ as, f a = .ok (g a)) :
    as.mapM f = .ok (as.map g) := by
  induction as with
  | nil => rfl
  | cons a as ih =>
    rw [List.mapM_cons, hf a List.mem_cons_self,
      ih fun b hb => hf b (List.mem_cons_of_mem a hb)]
    rfl

/-- What holds at the start and is kept by every step holds at the end. `P` also
sees the steps done. -/
theorem foldlM_inv {f : σ → α → Except ε σ} {P : List α → σ → Prop}
    (hstep : ∀ done s a s', P done s → f s a = .ok s' → P (done ++ [a]) s')
    {done : List α} {s s' : σ} (hstart : P done s)
    (h : as.foldlM f s = .ok s') :
    P (done ++ as) s' := by
  induction as generalizing done s with
  | nil =>
    rw [List.foldlM_nil, pure_eq_ok_iff] at h
    rw [← h, List.append_nil]
    exact hstart
  | cons a as ih =>
    rw [List.foldlM_cons, bind_eq_ok_iff] at h
    obtain ⟨next, hnext, hrest⟩ := h
    rw [List.append_cons]
    exact ih (hstep done s a next hstart hnext) hrest

/-- If every step goes on from where the steps before it have led, the chain
comes to its end. -/
theorem exists_foldlM_eq_ok {f : σ → α → Except ε σ} {P : List α → σ → Prop}
    {all : List α}
    (hstep : ∀ done a rest s, all = done ++ a :: rest → P done s →
      ∃ s', f s a = .ok s' ∧ P (done ++ [a]) s')
    {done : List α} {s : σ} (hall : all = done ++ as) (hstart : P done s) :
    ∃ s', as.foldlM f s = .ok s' := by
  induction as generalizing done s with
  | nil => exact ⟨s, rfl⟩
  | cons a as ih =>
    obtain ⟨next, hnext, hdone⟩ := hstep done a as s hall hstart
    obtain ⟨last, hlast⟩ := ih (by rw [hall, List.append_cons]) hdone
    refine ⟨last, ?_⟩
    rw [List.foldlM_cons, bind_eq_ok_iff]
    exact ⟨next, hnext, hlast⟩

end ProtocolCorpus.Chain
