import ProtocolCorpus.Path

/-!
# Path patterns

Patterns in which `*` stands for any row of characters without a slash, `?` for
one character other than a slash, and brackets for one character of a class. A
pattern is a row of chunks, each with or without a star in front; a star takes
as little as its chunk allows, and a chunk once matched stays where it is.
-/

namespace ProtocolCorpus

namespace Pattern

inductive Item
  /-- Any character but a slash. -/
  | any
  /-- A character inside one of the ranges, or outside all of them. -/
  | oneOf (negated : Bool) (ranges : List (Nat × Nat))
  | literal (b : UInt8)
  deriving DecidableEq, Repr

/-- A part of a pattern without a star inside. -/
structure Chunk where
  star : Bool
  items : List Item
  deriving DecidableEq, Repr

/-- One end of a range in brackets, which must be followed by something, and
what follows it. -/
def bound? (t : Text) : Option (Nat × Text) :=
  let body := match t with
    | [] => none
    | 0x2D :: _ => none
    | 0x5D :: _ => none
    | 0x5C :: rest => if rest.isEmpty then none else some rest
    | _ => some t
  match body with
  | some (b :: rest) =>
    match Scalar.first b rest with
    | (.char c, n) =>
      if (rest.drop n).isEmpty then none else some (c.toNat, rest.drop n)
    | (.stray _, _) => none
  | _ => none

theorem length_bound?_lt
    {t rest : Text} {n : Nat}
    (h : bound? t = some (n, rest)) : rest.length < t.length := by
  unfold bound? at h
  grind

/-- The ranges in brackets up to the closing one, which cannot come first, and
what follows it. -/
def ranges? (first : Bool) (t : Text) : Option (List (Nat × Nat) × Text) :=
  if t.head? = some 0x5D ∧ first = false then some ([], t.tail)
  else
    match _h : bound? t with
    | none => none
    | some (lo, 0x2D :: rest) =>
      match _h' : bound? rest with
      | none => none
      | some (hi, rest') =>
        (ranges? false rest').map fun (rs, r) => ((lo, hi) :: rs, r)
    | some (lo, rest) =>
      (ranges? false rest).map fun (rs, r) => ((lo, lo) :: rs, r)
termination_by t.length
decreasing_by
  · have h1 := length_bound?_lt _h
    have h2 := length_bound?_lt _h'
    simp only [List.length_cons] at h1
    omega
  · exact length_bound?_lt _h

theorem length_ranges?_le
    {first : Bool} {t r : Text} {rs : List (Nat × Nat)}
    (h : ranges? first t = some (rs, r)) : r.length ≤ t.length := by
  fun_induction ranges? first t generalizing rs r with
  | case1 t h1 => grind
  | case2 => simp at h
  | case3 => simp at h
  | case4 first t _ lo rest h1 hi rest' h2 ih =>
    have hb := length_bound?_lt h1
    have hb' := length_bound?_lt h2
    simp only [Option.map_eq_some_iff, Prod.mk.injEq, Prod.exists] at h
    obtain ⟨rs', r', hr, _, rfl⟩ := h
    have := ih hr
    simp only [List.length_cons] at hb
    omega
  | case5 first t _ lo rest _ h1 ih =>
    have hb := length_bound?_lt h1
    simp only [Option.map_eq_some_iff, Prod.mk.injEq, Prod.exists] at h
    obtain ⟨rs', r', hr, _, rfl⟩ := h
    have := ih hr
    omega

/-- One step of a pattern: a star or an item, and what follows it. -/
def step? : Text → Option (Option Item × Text)
  | [] => none
  | 0x2A :: rest => some (none, rest)
  | 0x3F :: rest => some (some .any, rest)
  | 0x5C :: [] => none
  | 0x5C :: b :: rest => some (some (.literal b), rest)
  | 0x5B :: 0x5E :: rest =>
    (ranges? true rest).map fun (rs, r) => (some (.oneOf true rs), r)
  | 0x5B :: rest =>
    (ranges? true rest).map fun (rs, r) => (some (.oneOf false rs), r)
  | b :: rest => some (some (.literal b), rest)

theorem length_step?_lt
    {t r : Text} {item : Option Item}
    (h : step? t = some (item, r)) : r.length < t.length := by
  unfold step? at h
  split at h
  all_goals try grind
  · simp only [Option.map_eq_some_iff, Prod.mk.injEq, Prod.exists] at h
    obtain ⟨rs, r', hr, _, rfl⟩ := h
    have := length_ranges?_le hr
    simp only [List.length_cons]
    omega
  · simp only [Option.map_eq_some_iff, Prod.mk.injEq, Prod.exists] at h
    obtain ⟨rs, r', hr, _, rfl⟩ := h
    have := length_ranges?_le hr
    simp only [List.length_cons]
    omega

/-- The stars and items of a pattern, or nothing if it is malformed. -/
def items? (t : Text) : Option (List (Option Item)) :=
  if t.isEmpty then some []
  else
    match _h : step? t with
    | none => none
    | some (item, rest) => (items? rest).map (item :: ·)
termination_by t.length
decreasing_by exact length_step?_lt _h

/-- The items as chunks; `star` says whether a star stands in front. -/
def group (star : Bool) (current : List Item) : List (Option Item) → List Chunk
  | [] => if star || !current.isEmpty then [⟨star, current.reverse⟩] else []
  | some i :: rest => group star (i :: current) rest
  | none :: rest =>
    if current.isEmpty then group true [] rest
    else ⟨star, current.reverse⟩ :: group true [] rest

def parse? (t : Text) : Option (List Chunk) :=
  (items? t).map (group false [])

/-- What is left of a name after the items have matched its start. -/
def matchItems : List Item → Text → Option Text
  | [], name => some name
  | _ :: _, [] => none
  | .literal b :: items, c :: name =>
  if b = c then matchItems items name else none
  | .any :: items, c :: name =>
    if c = 0x2F then none
    else matchItems items (name.drop (Scalar.first c name).2)
  | .oneOf negated ranges :: items, c :: name =>
    let (s, n) := Scalar.first c name
    if ranges.any (fun r => r.1 ≤ s.code && s.code ≤ r.2) == negated then none
    else matchItems items (name.drop n)

/-- What is left of a name after a star and the items; the last chunk has to use
the name up. -/
def matchAfterStar (items : List Item) (last : Bool) : Text → Option Text
  | [] => none
  | c :: name =>
    if c = 0x2F then none
    else
      match matchItems items name with
      | some rest =>
        if last && !rest.isEmpty then matchAfterStar items last name
        else some rest
      | none => matchAfterStar items last name

def matchChunks : List Chunk → Text → Bool
  | [], name => name.isEmpty
  | chunk :: rest, name =>
    if chunk.star && chunk.items.isEmpty then !List.contains name 0x2F
    else
      let here := match matchItems chunk.items name with
        | some left => if left.isEmpty || !rest.isEmpty then some left else none
        | none => none
      match here with
      | some left => matchChunks rest left
      | none =>
        if chunk.star then
          match matchAfterStar chunk.items rest.isEmpty name with
          | some left => matchChunks rest left
          | none => false
        else false

end Pattern

end ProtocolCorpus
