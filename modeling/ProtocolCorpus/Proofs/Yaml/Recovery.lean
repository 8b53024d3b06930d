import ProtocolCorpus.Proofs.Yaml.Blocks

/-!
# What comes back of codecs

Which values come back from YAML, codec by codec: a scalar does if the reader
makes of it what was written, and a list or a record does just if all its parts
do. A list that is not there comes back as an empty one, so values are compared
after a map that makes the two the same.
-/

namespace ProtocolCorpus

namespace Yaml

open Cursor Codec

variable {α σ : Type}

/-- What a codec reads of what it has written. -/
def back (k : Codec α) (a : α) : Option α :=
  (datum? (k.write a)).bind fun d => k.read conventions d k.zero

/-- The value comes back just if `P` holds, where what `norm` maps to one value
counts as the same. -/
def Recovers (k : Codec α) (norm : α → α) (a : α) (P : Prop) : Prop :=
  (back k a).map norm = some (norm a) ↔ P

/-! ## Scalars -/

/-- No block of lines starts with a line end or a tab. -/
def Survives (t : Text) : Prop :=
  style (readsAsText t) t = .literal → ∀ c ∈ (Text.chars t).head?, isBreak c =
    false ∧ c ≠ '\t'

instance : DecidablePred Survives := fun t =>
  decidable_of_iff
    (style (readsAsText t) t = .literal →
      (Text.chars t).head?.all (fun c => isBreak c = false ∧ c ≠ '\t') = true)
    (by
      simp only [Survives, Option.all_eq_true, decide_eq_true_iff,
        Option.mem_def])

/-- What comes back from YAML as it was. -/
def survivors : Limits where
  text := Survives
  int _ := True
  length _ := True

instance : DecidablePred survivors.text :=
    inferInstanceAs (DecidablePred Survives)

instance : DecidablePred survivors.int := fun _ =>
    inferInstanceAs (Decidable True)

instance : DecidablePred survivors.length := fun _ =>
    inferInstanceAs (Decidable True)

theorem ofChars_ne_ofChars_cons (c : Char) (cs : List Char) :
    Text.ofChars cs ≠ Text.ofChars (c :: cs) := by
  intro h
  obtain ⟨b, tail, hc, -⟩ := Scalar.first_utf8EncodeChar c []
  have hlength := congrArg List.length h
  rw [Text.ofChars, Text.ofChars, List.flatMap_cons, hc, List.length_append,
    List.length_cons] at hlength
  omega

/-- The texts that come back as they were are those that survive. -/
theorem reread_eq_some_iff
    {t : Text} (ht : Text.isWellFormed t = true) :
    reread t = some t ↔ Survives t := by
  rw [Survives, reread]
  split
  next c cs hstyle hcs =>
    have htext : Text.ofChars (c :: cs) = t := by
      rw [← hcs, Text.ofChars_chars ht]
    rw [hcs, List.head?_cons]
    by_cases hbreak : isBreak c = true
    · have hshort := ofChars_ne_ofChars_cons c cs
      rw [htext] at hshort
      simp [hbreak, hstyle, hshort]
    · by_cases htab : c = '\t'
      · simp [htab, hstyle, isBreak]
      · simp [hbreak, htab]
  next hplain =>
    refine ⟨fun _ hstyle c hc => ?_, fun _ => rfl⟩
    obtain ⟨cs, hcs⟩ := List.head?_eq_some_iff.1 hc
    exact absurd hcs (hplain c cs hstyle)

theorem recovers_text
    {t : Text} (ht : Text.isWellFormed t = true) :
    Recovers Codec.text id t (Survives t) := by
  have hback : back Codec.text t = reread t := by
    have hwrite : Codec.text.write t = .text t := rfl
    rw [back, hwrite, datum?]
    cases reread t <;> rfl
  rw [Recovers, hback, Option.map_id]
  exact reread_eq_some_iff ht

theorem recovers_int
    {n : Int} (hlow : -2 ^ 63 ≤ n) (hhigh : n < 2 ^ 63) :
    Recovers Codec.int id n True := by
  have hback : back Codec.int n = some n := by
    have hwrite : Codec.int.write n = .int n := rfl
    rw [back, hwrite, datum?, Option.bind_some, plainDatum,
      meaning_ofInt hlow hhigh]
    exact if_pos hhigh
  rw [Recovers, hback]
  simp

theorem recovers_word (w : UInt32) : Recovers Codec.word id w True := by
  have hw : w.toNat < 2 ^ 32 := w.toNat_lt
  have hbounds : (0 : Int) ≤ w.toNat ∧ (w.toNat : Int) < 0x100000000 := by omega
  have hview : (Meaning.views (Text.ofInt w.toNat) (.int w.toNat)).word? =
      some w := by
    unfold Meaning.views
    dsimp only
    rw [if_pos hbounds, Int.toNat_natCast, UInt32.ofNat_toNat]
  have hback : back Codec.word w = some w := by
    have hwrite : Codec.word.write w = .int w.toNat := rfl
    have hread : ∀ v a, Codec.word.read conventions (.scalar v) a = v.word? :=
      fun _ _ => rfl
    rw [back, hwrite, datum?, Option.bind_some, plainDatum,
      meaning_ofInt (by omega) (by omega)]
    dsimp only
    rw [hread, hview]
  rw [Recovers, hback]
  simp

theorem recovers_bool (b : Bool) : Recovers Codec.bool id b True := by
  have hback : back Codec.bool b = some b := by
    cases b <;> rfl
  rw [Recovers, hback]
  simp

/-! ## Lists and what need not be there -/

section List

variable {k : Codec α} {norm : α → α} {P : α → Prop}
  (hnull : ∀ a d, datum? (k.write a) = some d → d.isNull = false)
include hnull

theorem back_list_cons (a : α) (as : List α) :
    back (list k) (a :: as) = (back k a).bind fun b =>
      (back (list k) as).map (b :: ·) := by
  have hwrite : ∀ as, (list k).write as = .list (as.map k.write) := fun _ => rfl
  have hread : ∀ ds, (list k).read conventions (.list ds) (list k).zero =
      readItems (k.read conventions) k.zero (ds.filter fun d => !d.isNull) [] :=
      fun _ => rfl
  rw [back, back, back, hwrite, hwrite, datum?, datum?, List.map_cons,
    itemData?]
  cases hd : datum? (k.write a) with
  | none => rfl
  | some d =>
    rw [Option.bind_some, Option.bind_some]
    cases itemData? (as.map k.write) with
    | none =>
      cases k.read conventions d k.zero <;> rfl
    | some ds =>
      have hkept : (!d.isNull) = true := by rw [hnull a d hd]; rfl
      rw [Option.map_some, Option.map_some, Option.map_some, Option.bind_some,
        Option.bind_some, hread, hread, List.filter_cons,
        if_pos hkept, readItems]
      simp only [Option.map_eq_bind]
      rfl

theorem recovers_list
    {as : List α} (has : ∀ a ∈ as, Recovers k norm a (P a)) :
    Recovers (list k) (List.map norm) as (∀ a ∈ as, P a) := by
  induction as with
  | nil => exact ⟨fun _ _ ha => (List.not_mem_nil ha).elim, fun _ => rfl⟩
  | cons a as ih =>
    obtain ⟨ha, has⟩ := List.forall_mem_cons.1 has
    have hrest := ih has
    rw [Recovers] at ha hrest ⊢
    rw [back_list_cons hnull, List.forall_mem_cons, ← ha, ← hrest]
    simp only [Option.map_eq_some_iff, Option.bind_eq_some_iff]
    constructor
    · rintro ⟨bs, ⟨b, hb, cs, hcs, rfl⟩, hnorm⟩
      obtain ⟨hnormb, hnormcs⟩ := List.cons.inj hnorm
      exact ⟨⟨b, hb, hnormb⟩, cs, hcs, hnormcs⟩
    · rintro ⟨⟨b, hb, hnormb⟩, cs, hcs, hnormcs⟩
      refine ⟨b :: cs, ⟨b, hb, cs, hcs, rfl⟩, ?_⟩
      rw [List.map_cons, List.map_cons, hnormb, hnormcs]

/-- A list that is not there comes back as an empty one. -/
theorem recovers_absentOr
    {as? : Option (List α)}
    (has : ∀ as ∈ as?, ∀ a ∈ as, Recovers k norm a (P a)) :
    Recovers (absentOr k) (fun as? => some ((as?.getD []).map norm)) as?
      (∀ as ∈ as?, ∀ a ∈ as, P a) := by
  cases as? with
  | none =>
    refine ⟨fun _ _ has => (Option.not_mem_none _ has).elim, fun _ => ?_⟩
    have hwrite : (absentOr k).write none = .absent := rfl
    rw [back, hwrite, datum?]
    rfl
  | some as =>
    have hback : back (absentOr k) (some as) = (back (list k) as).map some := by
      have hwrite : (absentOr k).write (some as) = (list k).write as := rfl
      have hlist : (list k).write as = .list (as.map k.write) := rfl
      rw [back, back, hwrite, hlist, datum?]
      cases itemData? (as.map k.write) <;> rfl
    have hlist := recovers_list hnull (has as rfl)
    rw [Recovers] at hlist ⊢
    rw [hback, Option.map_map]
    simp only [Option.mem_def, Option.some.injEq, forall_eq', Option.getD_some]
    rw [← hlist]
    simp [Option.map_eq_some_iff]

theorem recovers_optional
    {a : α} (ha : Recovers k norm a (P a)) :
    Recovers (Codec.optional k) (Option.map norm) (some a)
      (∀ x ∈ some a, P x) := by
  have hback : back (Codec.optional k) (some a) = (back k a).map some := by
    have hwrite : (Codec.optional k).write (some a) = k.write a := rfl
    rw [back, back, hwrite]
    cases hd : datum? (k.write a) with
    | none => rfl
    | some d =>
      have hkept := hnull a d hd
      cases d with
      | null => cases hkept
      | _ => rfl
  rw [Recovers] at ha ⊢
  rw [hback]
  simp only [Option.mem_def, Option.some.injEq, forall_eq']
  rw [← ha]
  simp [Option.map_eq_some_iff]

end List

/-! ## Records -/

/-- What is read of what was written of a field of `s`, on top of `t`. -/
def fieldBack (s t : σ) (f : Field σ) : Option σ :=
  match f.write s with
  | none => some t
  | some tree => (datum? tree).bind fun d => f.read conventions d t

theorem find?_key
    {done rest : List (Field σ)} {f : Field σ}
    (hdistinct : ((done ++ f :: rest).map Field.key).Nodup) :
    ((done ++ f :: rest).find? fun g => conventions.names g.key f.key) =
      some f := by
  rw [List.find?_append, List.find?_eq_none.2, Option.none_or]
  · exact List.find?_cons_of_pos (beq_self_eq_true f.key)
  · intro g hg
    have hne : g.key ≠ f.key := by
      rw [List.map_append, List.map_cons, List.nodup_append] at hdistinct
      exact hdistinct.2.2 g.key (List.mem_map_of_mem hg) f.key
        List.mem_cons_self
    exact mt eq_of_beq hne

/-- The members that were written of the fields still to come are read field by
field. -/
theorem foldlM_written
    (done rest : List (Field σ)) (s t : σ)
    (hdistinct : ((done ++ rest).map Field.key).Nodup) :
    ((memberData? (rest.filterMap fun f => (f.write s).map fun tree =>
      (f.key, tree))).bind
      fun ds => ds.foldlM (readMember conventions (done ++ rest)) t) =
      rest.foldlM (fieldBack s) t := by
  induction rest generalizing done t with
  | nil =>
    rw [List.filterMap_nil, memberData?]
    rfl
  | cons f fs ih =>
    have hrest := fun t => ih (done ++ [f]) t (by simpa using hdistinct)
    simp only [List.append_assoc, List.singleton_append] at hrest
    rw [List.foldlM_cons, fieldBack]
    cases hwrite : f.write s with
    | none =>
      rw [List.filterMap_cons_none (by rw [hwrite]; rfl), hrest]
      rfl
    | some tree =>
      rw [List.filterMap_cons_some (b := (f.key, tree)) (by rw [hwrite]; rfl),
        memberData?]
      dsimp only
      cases datum? tree with
      | none => rfl
      | some d =>
        have hmember : readMember conventions (done ++ f :: fs) t (f.key, d) =
            f.read conventions d t := by
          rw [readMember, find?_key hdistinct]
        simp only [Option.bind_some, Option.bind_map, Function.comp_def,
          List.foldlM_cons, hmember]
        cases f.read conventions d t with
        | none => exact Option.bind_fun_none _
        | some t' => exact hrest t'

/-- Reading what was written of the fields of `s` on top of `t` leads to `s`
just if `P` holds. -/
def RecoversFrom (norm : σ → σ) (s : σ) (fields : List (Field σ)) (t : σ)
    (P : Prop) : Prop :=
  (fields.foldlM (fieldBack s) t).map norm = some (norm s) ↔ P

theorem recovers_record
    {zero s : σ} {fields : List (Field σ)} {norm : σ → σ} {P : Prop}
    (hfields : Legible fields)
    (h : RecoversFrom norm s fields zero (True ∧ P)) :
    Recovers (record zero fields) norm s P := by
  have hback : back (record zero fields) s =
      fields.foldlM (fieldBack s) zero := by
    have hwrite : (record zero fields).write s =
        .record (fields.filterMap fun f => (f.write s).map fun tree =>
          (f.key, tree)) := rfl
    rw [back, hwrite, datum?, Option.bind_map]
    exact foldlM_written [] fields s zero hfields.distinct
  rw [Recovers, hback]
  rwa [RecoversFrom, true_and] at h

namespace RecoversFrom

variable {norm : σ → σ} {s t : σ} {fs : List (Field σ)} {C Q : Prop}

/-- When all fields have been read, the record is there if all have come back.
-/
theorem nil (h : norm t = norm s ↔ C) :
    RecoversFrom norm s [] t (C ∧ True) := by
  rw [RecoversFrom, and_true, ← h]
  exact Option.some_inj

/-- A field comes back on its own, whatever the fields before it have come to.
-/
theorem omitting
    {k : Codec α} {omitted : α → Bool} {key : Text} {get : σ → α}
    {set : α → σ → σ} {n : α → α} {P : Prop}
    (hk : omitted (get s) = false → Recovers k n (get s) P)
    (homitted : omitted (get s) = true → get s = k.zero ∧ P)
    (hzero : get t = k.zero) (hsame : set (get t) t = t)
    (hrest : ∀ a, RecoversFrom norm s fs (set a t)
      ((C ∧ n a = n (get s)) ∧ Q)) :
    RecoversFrom norm s (Field.omitting omitted key k get set :: fs) t
      (C ∧ P ∧ Q) := by
  obtain ⟨x, hback, hx⟩ : ∃ x : Option α,
      fieldBack s t (Field.omitting omitted key k get set) =
      x.map (fun a => set a t) ∧ (x.map n = some (n (get s)) ↔ P) := by
    rw [fieldBack]
    cases hleft : omitted (get s) with
    | true =>
      obtain ⟨hget, hP⟩ := homitted hleft
      have hwrite : (Field.omitting omitted key k get set).write s = none :=
        if_pos hleft
      refine ⟨some (get s), ?_, iff_of_true rfl hP⟩
      rw [hwrite, Option.map_some, hget, ← hzero, hsame]
    | false =>
      have hwrite : (Field.omitting omitted key k get set).write s =
        some (k.write (get s)) :=
        if_neg (by rw [hleft]; exact Bool.noConfusion)
      refine ⟨back k (get s), ?_, hk hleft⟩
      rw [hwrite, back, Option.map_bind, ← hzero]
      rfl
  rw [RecoversFrom, List.foldlM_cons, hback]
  cases x with
  | none =>
    have hP : ¬P := fun h => by cases hx.2 h
    exact iff_of_false (fun h => by cases h) fun h => hP h.2.1
  | some a =>
    rw [Option.map_some, Option.some_inj] at hx
    refine (hrest a).trans ?_
    rw [hx, and_assoc]

section Fields

variable {key : Text} {n : α → α}

theorem always {k : Codec α} {get : σ → α} {set : α → σ → σ} {P : Prop}
    (hk : Recovers k n (get s) P) (hzero : get t = k.zero)
    (hsame : set (get t) t = t)
    (hrest : ∀ a, RecoversFrom norm s fs (set a t)
      ((C ∧ n a = n (get s)) ∧ Q)) :
    RecoversFrom norm s (.always key k get set :: fs) t (C ∧ P ∧ Q) :=
  omitting (fun _ => hk) (fun h => by cases h) hzero hsame hrest

theorem text
    {get : σ → Text} {set : Text → σ → σ}
    (ht : Text.isWellFormed (get s) = true) (hzero : get t = [])
    (hsame : set (get t) t = t)
    (hrest : ∀ a, RecoversFrom norm s fs (set a t)
      ((C ∧ id a = id (get s)) ∧ Q)) :
    RecoversFrom norm s (.text key get set :: fs) t
      (C ∧ Survives (get s) ∧ Q) := by
  refine omitting (fun _ => recovers_text ht) ?_ hzero hsame hrest
  intro hempty
  rw [List.isEmpty_iff.1 hempty]
  exact ⟨rfl, by decide⟩

theorem int
    {get : σ → Int} {set : Int → σ → σ} (hn : -2 ^ 63 ≤ get s ∧ get s < 2 ^ 63)
    (hzero : get t = 0) (hsame : set (get t) t = t)
    (hrest : ∀ a, RecoversFrom norm s fs (set a t)
      ((C ∧ id a = id (get s)) ∧ Q)) :
    RecoversFrom norm s (.int key get set :: fs) t (C ∧ True ∧ Q) :=
  omitting (fun _ => recovers_int hn.1 hn.2)
    (fun h => ⟨eq_of_beq h, True.intro⟩) hzero hsame hrest

theorem flag
    {get : σ → Bool} {set : Bool → σ → σ} (hzero : get t = false)
    (hsame : set (get t) t = t)
    (hrest : ∀ a, RecoversFrom norm s fs (set a t)
      ((C ∧ id a = id (get s)) ∧ Q)) :
    RecoversFrom norm s (.flag key get set :: fs) t (C ∧ True ∧ Q) :=
  omitting (fun _ => recovers_bool _)
    (fun h => ⟨show get s = false by simpa using h, True.intro⟩)
    hzero hsame hrest

theorem list {k : Codec α} {get : σ → List α} {set : List α → σ → σ}
    {P : α → Prop}
    (hk : Recovers (Codec.list k) (List.map n) (get s) (∀ a ∈ get s, P a))
    (hzero : get t = []) (hsame : set (get t) t = t)
    (hrest : ∀ as, RecoversFrom norm s fs (set as t)
      ((C ∧ as.map n = (get s).map n) ∧ Q)) :
    RecoversFrom norm s (.list key k get set :: fs) t
      (C ∧ (∀ a ∈ get s, P a) ∧ Q) := by
  refine omitting (fun _ => hk) ?_ hzero hsame hrest
  intro hempty
  rw [List.isEmpty_iff.1 hempty]
  exact ⟨rfl, fun _ h => (List.not_mem_nil h).elim⟩

theorem optional {k : Codec α} {get : σ → Option α} {set : Option α → σ → σ}
    {P : α → Prop}
    (hnull : ∀ a d, datum? (k.write a) = some d → d.isNull = false)
    (hk : ∀ a ∈ get s, Recovers k n a (P a)) (hzero : get t = none)
    (hsame : set (get t) t = t)
    (hrest : ∀ a?, RecoversFrom norm s fs (set a? t)
      ((C ∧ a?.map n = (get s).map n) ∧ Q)) :
    RecoversFrom norm s (.optional key k get set :: fs) t
      (C ∧ (∀ a ∈ get s, P a) ∧ Q) := by
  refine omitting ?_ ?_ hzero hsame hrest
  · intro hthere
    cases hget : get s with
    | none =>
      rw [hget] at hthere
      cases hthere
    | some a => exact recovers_optional hnull (hk a hget)
  · intro hnone
    rw [Option.isNone_iff_eq_none.1 hnone]
    exact ⟨rfl, fun _ h => (Option.not_mem_none _ h).elim⟩

end Fields

end RecoversFrom

theorem isNull_datum?_record (zero : σ) (fields : List (Field σ)) :
    ∀ s d, datum? ((record zero fields).write s) = some d →
    d.isNull = false := by
  intro s d hd
  have hwrite : (record zero fields).write s =
      .record (fields.filterMap fun f => (f.write s).map fun tree =>
        (f.key, tree)) := rfl
  rw [hwrite, datum?] at hd
  obtain ⟨ds, -, rfl⟩ := Option.map_eq_some_iff.1 hd
  rfl

theorem isNull_datum?_text : ∀ t d, datum? (Codec.text.write t) = some d →
    d.isNull = false := by
  intro t d hd
  have hwrite : Codec.text.write t = .text t := rfl
  rw [hwrite, datum?] at hd
  obtain ⟨u, -, rfl⟩ := Option.map_eq_some_iff.1 hd
  rfl

end Yaml

end ProtocolCorpus
