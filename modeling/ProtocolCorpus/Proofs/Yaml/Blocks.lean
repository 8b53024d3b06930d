import ProtocolCorpus.Proofs.Yaml.Leaves

/-!
# Reading blocks

A tree is read back from the lines it is written on. The induction is on the
tree; every part of it is read up to the next token, which stands where the
writer of the parts around it has put it.
-/

namespace ProtocolCorpus

namespace Yaml

open Cursor

section

variable {c : Char} {cs r : List Char} {column line j : Nat} {fresh : Bool}
  {anchors : List (Text × Node)}
  {fuel floor : Nat} {keys value : Bool} {k : Text}

/-! ## Keys -/

theorem toNat_of_isFieldName
    (hk : isFieldName k = true) (hc : c ∈ Text.chars k) :
    (0x61 ≤ c.toNat ∧ c.toNat ≤ 0x7A) ∨ c.toNat = 0x5F := by
  have hcode := List.mem_map_of_mem (f := Char.toNat) hc
  rw [map_toNat_chars fun b hb => isWordByte_of_isFieldName hk hb, List.mem_map]
    at hcode
  obtain ⟨b, hb, hcode⟩ := hcode
  rw [isFieldName, isPlainKey, Bool.and_eq_true, Bool.and_eq_true,
    List.all_eq_true] at hk
  have hbyte := hk.1.2 b hb
  simp only [Bool.or_eq_true, Bool.and_eq_true, decide_eq_true_eq, beq_iff_eq,
    UInt8.le_iff_toNat_le, ← UInt8.toNat_inj, UInt8.reduceToNat] at hbyte
  omega

/-- A name of a field starts with a letter or an underscore. -/
theorem exists_chars_eq_cons
    (hk : isFieldName k = true) :
    ∃ c cs, Text.chars k = c :: cs ∧
      ((0x61 ≤ c.toNat ∧ c.toNat ≤ 0x7A) ∨ c.toNat = 0x5F) := by
  have hne : Text.chars k ≠ [] := by
    apply chars_ne_nil (isWellFormed_of_isFieldName hk)
    rintro rfl
    cases hk
  obtain ⟨c, cs, hcs⟩ := List.exists_cons_of_ne_nil hne
  exact ⟨c, cs, hcs, toNat_of_isFieldName hk
    (by rw [hcs]; exact List.mem_cons_self)⟩

theorem atEnd_fieldName
    (hk : isFieldName k = true) (r : List Char) :
    atEnd ⟨Text.chars k ++ r, column, line, fresh, anchors⟩ = false := by
  obtain ⟨c, cs, hcs, hc⟩ := exists_chars_eq_cons hk
  rw [hcs, List.cons_append, atEnd, atDocumentMark]
  dsimp only
  split
  next h =>
    obtain ⟨rfl, -⟩ := List.cons.inj h
    exact absurd hc (by decide)
  next h =>
    obtain ⟨rfl, -⟩ := List.cons.inj h
    exact absurd hc (by decide)
  · rw [Bool.and_false]
    rfl

theorem startsToken_fieldName
    (hk : isFieldName k = true) (r : List Char) :
    startsToken (Text.chars k ++ r) = true := by
  have hplain := plainText_of_isFieldName hk
  obtain ⟨c, cs, hcs, -⟩ := exists_chars_eq_cons hk
  rw [hcs] at hplain ⊢
  exact startsToken_of_startsPlain
    (startsPlain_plain (List.cons_ne_nil c cs) hplain r)

theorem isMark_fieldName
    (hk : isFieldName k = true) (r : List Char) :
    ∀ d ∈ ['?', ':', '-'],
      isMark ⟨Text.chars k ++ r, column, line, fresh, anchors⟩ d = false := by
  obtain ⟨c, cs, hcs, -⟩ := exists_chars_eq_cons hk
  exact isMark_plain (by rw [hcs]; exact List.cons_ne_nil c cs)
    (plainText_of_isFieldName hk) r

theorem key?_fieldName
    (hk : isFieldName k = true) (hr : endsWord r = true) :
    key? fuel ⟨Text.chars k ++ ':' :: r, column, line, fresh, anchors⟩ =
      some (.scalar none true k,
      ⟨r, column + (Text.chars k).length + 1, line, false, anchors⟩) := by
  have hword : ∀ c ∈ Text.chars k, isBlank c = false ∧ isBreak c = false ∧
      c ≠ ':' := by
    intro c hc
    obtain ⟨hprintable, hbreak, hblank, hcolon⟩ :=
      isPrintable_of_isWordByte (fun b hb => isWordByte_of_isFieldName hk hb) hc
    exact ⟨isBlank_eq_false hprintable
      hblank, by rwa [isBreak_eq_isBreakCode], hcolon⟩
  have hmark :
    atDocumentMark ⟨Text.chars k ++ ':' :: r, column, line, fresh, anchors⟩ =
    false :=
    (Bool.or_eq_false_iff.1 (atEnd_fieldName hk (':' :: r))).2
  have hplain := plainText_of_isFieldName hk
  obtain ⟨c, cs, hcs, hc⟩ := exists_chars_eq_cons hk
  have hcomment : (Text.chars k).head? ≠ some '#' := by
    rw [hcs]
    intro h
    cases h
    exact absurd hc (by decide)
  have hread :=
    plain?_key (by rw [hcs]; exact List.cons_ne_nil c cs) hword
      hcomment hr hmark
  have hstart :=
    startsPlain_plain (by rw [hcs]; exact List.cons_ne_nil c cs) hplain
      (':' :: r)
  have htext : textOf (Text.chars k) = k :=
    Text.ofChars_chars (isWellFormed_of_isFieldName hk)
  rw [hcs, List.cons_append] at hread hstart ⊢
  have hfree := not_mem_of_startsPlain hstart
  have hanchor : c ≠ '&' := by
    rintro rfl
    exact hfree (by simp)
  have htag : c ≠ '!' := by
    rintro rfl
    exact hfree (by simp)
  have hend :
      (decide (line = line) &&
      isMark ⟨':' :: r, column + (Text.chars k).length, line, false, anchors⟩
      ':') =
      true := by
    rw [decide_eq_true rfl]
    exact hr
  rw [key?_eq_bind hanchor htag, keyNode_of_startsPlain hstart, hread, ← hcs,
    Option.map_some, Option.bind_some, htext]
  exact if_pos hend

/-- The token behind the blank that follows a dash. -/
theorem toToken_blank
    (hr : startsToken r = true) (tabs : Bool) :
    toToken ⟨' ' :: r, column + 1, line, fresh, anchors⟩ tabs =
      ⟨r, column + 2, line, fresh, anchors⟩ :=
  toToken_blanks hr 1 tabs

/-! ## Lists and records in a block -/

/-- A record in a block is read as its members. -/
theorem blockNode_members
    {s : Cursor} (hk : isFieldName k = true) (hr : endsWord r = true)
    (hs : s.toToken (!keys) =
      ⟨Text.chars k ++ ':' :: r, column, line, fresh, anchors⟩)
    (hfloor : floor ≤ column) (hkeys : (keys || fresh) = true) :
    blockNode (fuel + 1) floor keys value s =
      (blockMembers fuel column
      ⟨Text.chars k ++ ':' :: r, column, line, fresh, anchors⟩).map
        fun x => (.mapping x.1, x.2) := by
  have hbelow : (fresh && decide (column < floor)) = false := by
    rw [decide_eq_false (Nat.not_lt.2 hfloor), Bool.and_false]
  have hkey :
      (key? fuel
      ⟨Text.chars k ++ ':' :: r, column, line, fresh, anchors⟩).isSome =
      true := by
    rw [key?_fieldName hk hr]
    rfl
  rw [blockNode, hs]
  dsimp only
  rw [atEnd_fieldName hk, hbelow, hkey, hkeys]
  rfl

theorem blockNode_items
    {s : Cursor}
    (hs : s.toToken (!keys) = ⟨'-' :: ' ' :: r, column, line, fresh, anchors⟩)
    (hcolumn : 0 < column) (hfloor : floor ≤ column)
    (hkeys : (keys || fresh) = true) :
    blockNode (fuel + 1) floor keys value s =
      (blockItems fuel column false
      ⟨'-' :: ' ' :: r, column, line, fresh, anchors⟩).map
        fun x => (.sequence x.1, x.2) := by
  have hbelow : (fresh && decide (column < floor)) = false := by
    rw [decide_eq_false (Nat.not_lt.2 hfloor), Bool.and_false]
  have hend : atEnd ⟨'-' :: ' ' :: r, column, line, fresh, anchors⟩ =
      false := by
    rw [atEnd, atDocumentMark_of_pos hcolumn]
    rfl
  have hkey : key? fuel ⟨'-' :: ' ' :: r, column, line, fresh, anchors⟩ =
      none := by
    apply key?_eq_none (by decide) (by decide)
    intro n s hnode
    cases hnode
  rw [blockNode, hs]
  dsimp only
  rw [hend, hbelow, hkey, hkeys]
  rfl

section Steps

variable {rest : List Char} {n : Node} {m : Node × Node} {s : Cursor}
  {line' : Nat}

/-- A block ends with the document, or where something is indented less. -/
theorem endsBlock
    (hend : r = [] ∨ j < column) :
    (atEnd ⟨r, j, line, true, anchors⟩ || decide (j < column)) = true := by
  rcases hend with rfl | hj
  · rfl
  · rw [decide_eq_true hj, Bool.or_true]

theorem blockItems_last
    (hnode : blockNode fuel (column + 1) true false
      ⟨rest, column + 1, line, false, anchors⟩ = some (n, s))
    (hs : s.toToken true = ⟨r, j, line', true, anchors⟩)
    (hend : r = [] ∨ j < column) :
    blockItems (fuel + 1) column false
      ⟨'-' :: rest, column, line, fresh, anchors⟩ =
      some ([n], ⟨r, j, line', true, anchors⟩) := by
  rw [blockItems]
  change (blockNode fuel (column + 1) true false
    ⟨rest, column + 1, line, false, anchors⟩).bind _ = _
  rw [hnode, Option.bind_some]
  dsimp only
  rw [hs]
  exact if_pos (endsBlock hend)

theorem blockItems_next
    (hnode : blockNode fuel (column + 1) true false
      ⟨rest, column + 1, line, false, anchors⟩ = some (n, s))
    (hs : s.toToken true = ⟨'-' :: ' ' :: r, column, line', true, anchors⟩)
    (hcolumn : 0 < column) :
    blockItems (fuel + 1) column false
      ⟨'-' :: rest, column, line, fresh, anchors⟩ =
      (blockItems fuel column false
      ⟨'-' :: ' ' :: r, column, line', true, anchors⟩).map
        fun x => (n :: x.1, x.2) := by
  have hend : atEnd ⟨'-' :: ' ' :: r, column, line', true, anchors⟩ =
      false := by
    rw [atEnd, atDocumentMark_of_pos hcolumn]
    rfl
  rw [blockItems]
  change (blockNode fuel (column + 1) true false
    ⟨rest, column + 1, line, false, anchors⟩).bind _ = _
  rw [hnode, Option.bind_some]
  dsimp only
  rw [hs, hend]
  dsimp only
  rw [decide_eq_false (Nat.lt_irrefl column)]
  exact Option.map_eq_bind.symm

theorem blockMember_eq
    (hk : isFieldName k = true) (hr : endsWord r = true) :
    blockMember (fuel + 1) column
      ⟨Text.chars k ++ ':' :: r, column, line, fresh, anchors⟩ =
      (blockNode fuel (column + 1) false true
        ⟨r, column + (Text.chars k).length + 1, line, false, anchors⟩).map
        fun x => ((.scalar none true k, x.1), x.2) := by
  have hmarks : ∀ d ∈ ['?', ':', '-'],
      isMark ⟨Text.chars k ++ ':' :: r, column, line, fresh, anchors⟩ d =
      false := isMark_fieldName hk (':' :: r)
  rw [blockMember, hmarks '?' (by simp), hmarks ':' (by simp),
    key?_fieldName hk hr]
  exact Option.map_eq_bind.symm

theorem blockMembers_last
    {u : Cursor} (hmember : blockMember fuel column u = some (m, s))
    (hs : s.toToken true = ⟨r, j, line', true, anchors⟩)
    (hend : r = [] ∨ j < column) :
    blockMembers (fuel + 1) column u =
      some ([m], ⟨r, j, line', true, anchors⟩) := by
  rw [blockMembers, hmember]
  change (if _ then _ else _) = _
  dsimp only
  rw [hs]
  exact if_pos (endsBlock hend)

theorem blockMembers_next
    {u : Cursor} (hmember : blockMember fuel column u = some (m, s))
    (hk : isFieldName k = true)
    (hs : s.toToken true =
      ⟨Text.chars k ++ ':' :: r, column, line', true, anchors⟩) :
    blockMembers (fuel + 1) column u =
      (blockMembers fuel column
      ⟨Text.chars k ++ ':' :: r, column, line', true, anchors⟩).map
        fun x => (m :: x.1, x.2) := by
  have hmark : isMark ⟨Text.chars k ++ ':' :: r, column, line', true, anchors⟩
    '-' = false :=
    isMark_fieldName hk (':' :: r) '-' (by simp)
  rw [blockMembers, hmember]
  change (if _ then _ else _) = _
  dsimp only
  rw [hs, atEnd_fieldName hk, hmark]
  dsimp only
  rw [decide_eq_false (Nat.lt_irrefl column)]
  exact Option.map_eq_bind.symm

end Steps

/-! ## What nodes stand for -/

def DenoteItems (ns : List Node) (ds : List Datum) : Prop :=
  ns.map Node.datum = ds

/-- The pairs of nodes stand for members with plain keys. -/
def DenoteMembers (ms : List (Node × Node)) (ds : List (Text × Datum)) : Prop :=
  (ms.map fun m => (m.1, m.2.datum)) = ds.map fun d =>
    (.scalar none true d.1, d.2)

theorem denotes_sequence
    {ns : List Node} {ds : List Datum} (h : DenoteItems ns ds) :
    (Node.sequence ns).Denotes (.list ds) := by
  have hitems : ∀ ns, datumItems ns = ns.map Node.datum := by
    intro ns
    induction ns with
    | nil => rw [datumItems, List.map_nil]
    | cons n ns ih => rw [datumItems, ih, List.map_cons]
  rw [Node.Denotes, Node.datum, hitems, h]

section Mapping

variable {ms : List (Node × Node)} {ds : List (Text × Datum)}

theorem distinctKeys_eq_true
    {ks : List Text} (h : ms.map Prod.fst = ks.map (Node.scalar none true))
    (hdistinct : ks.Nodup) :
    distinctKeys ms = true := by
  induction ms generalizing ks with
  | nil => rfl
  | cons m ms ih =>
    cases ks with
    | nil => cases h
    | cons k ks =>
      obtain ⟨hk, hks⟩ := List.cons.inj h
      obtain ⟨hfirst, hrest⟩ := List.nodup_cons.1 hdistinct
      have hother : (ms.any fun x => m.1.sameKey x.1) = false := by
        apply List.any_eq_false.2
        intro x hx hsame
        have hmem : x.1 ∈ ks.map (Node.scalar none true) := by
          rw [← hks]
          exact List.mem_map_of_mem hx
        obtain ⟨k', hk', hx'⟩ := List.mem_map.1 hmem
        rw [hk, ← hx'] at hsame
        have hkk : k = k' := eq_of_beq hsame
        exact hfirst (hkk ▸ hk')
      rw [distinctKeys, hother, ih hks hrest]
      rfl

theorem datumMembers_eq_map
    (h : ∀ m ∈ ms, m.1.isMerge = false) :
    datumMembers ms = (ms.map fun m => (m.1, m.2.datum)) ∧
      datumMerge ms = none := by
  induction ms with
  | nil => exact ⟨by rw [datumMembers, List.map_nil], by rw [datumMerge]⟩
  | cons m ms ih =>
    obtain ⟨hm, hms⟩ := List.forall_mem_cons.1 h
    obtain ⟨hmembers, hmerge⟩ := ih hms
    rw [datumMembers, datumMerge, hm, hmembers, hmerge]
    exact ⟨rfl, rfl⟩

theorem recordMembers_eq_some
    (hnames : ∀ d ∈ ds, isFieldName d.1 = true) :
    recordMembers (ds.map fun d => (.scalar none true d.1, d.2)) = some ds := by
  induction ds with
  | nil => rfl
  | cons d ds ih =>
    obtain ⟨hd, hds⟩ := List.forall_mem_cons.1 hnames
    have hdatum : scalarDatum none true d.1 = textDatum d.1 :=
      datum_of_readsAsText (readsAsText_of_isFieldName hd)
    rw [List.map_cons, recordMembers, hdatum, ih hds]
    rfl

/-- The nodes of a record with the names of fields as keys stand for the record.
-/
theorem denotes_mapping
    (h : DenoteMembers ms ds) (hnames : ∀ d ∈ ds, isFieldName d.1 = true)
    (hdistinct : (ds.map Prod.fst).Nodup) :
    (Node.mapping ms).Denotes (.record ds) := by
  have hkeys : ms.map Prod.fst =
      (ds.map Prod.fst).map (Node.scalar none true) := by
    have hfst := congrArg (List.map Prod.fst) h
    rw [List.map_map, List.map_map] at hfst
    rw [List.map_map]
    exact hfst
  have hmerge : ∀ m ∈ ms, m.1.isMerge = false := by
    intro m hm
    have hmem : m.1 ∈ (ds.map Prod.fst).map (Node.scalar none true) := by
      rw [← hkeys]
      exact List.mem_map_of_mem hm
    obtain ⟨k, hk, hm'⟩ := List.mem_map.1 hmem
    obtain ⟨d, hd, rfl⟩ := List.mem_map.1 hk
    have hplain : (d.1 == ("<<" : Text)) = false := by
      rw [beq_eq_false_iff_ne]
      intro hmark
      have hname := hnames d hd
      rw [hmark] at hname
      cases hname
    rw [← hm', Node.isMerge, hplain, Bool.and_false, Bool.false_and]
  obtain ⟨hmembers, hnone⟩ := datumMembers_eq_map hmerge
  rw [Node.Denotes, Node.datum, if_pos (distinctKeys_eq_true hkeys hdistinct),
    hmembers, hnone, h]
  unfold mergedRecord
  rw [recordMembers_eq_some hnames]

end Mapping

/-- What is read is put together from what was read. -/
theorem Reads.map
    {α β γ δ : Type} {R : α → β → Prop} {S : γ → δ → Prop} {expected : Option β}
    {result : Option (α × Cursor)} (h : Reads R expected r j anchors result)
    {f : α → γ} {g : β → δ}
    (hfg : ∀ a b, expected = some b → R a b → S (f a) (g b)) :
    Reads S (expected.map g) r j anchors
      (result.map fun x => (f x.1, x.2)) := by
  cases expected with
  | none =>
    have hnone : result = none := h
    rw [hnone]
    rfl
  | some b =>
    obtain ⟨a, s, line, rfl, hab, hs⟩ := h
    exact ⟨f a, s, line, rfl, hfg a b rfl hab, hs⟩

/-- What is read depends on what is read first. -/
theorem Reads.bind
    {α β γ δ : Type} {R : α → β → Prop} {S : γ → δ → Prop} {expected : Option β}
    {first : Option (α × Cursor)} {g : β → Option δ}
    {result : Option (γ × Cursor)} {r' : List Char} {j' : Nat}
    (h : Reads R expected r' j' anchors first)
    (hnone : first = none → result = none)
    (hsome : ∀ a s line b, first = some (a, s) → R a b → s.toToken true =
      ⟨r', j', line, true, anchors⟩ →
      Reads S (g b) r j anchors result) :
    Reads S (expected.bind g) r j anchors result := by
  cases expected with
  | none => exact hnone h
  | some b =>
    obtain ⟨a, s, line, hfirst, hab, hs⟩ := h
    exact hsome a s line b hfirst hab hs

theorem DenoteItems.nil : DenoteItems [] [] := rfl

theorem DenoteMembers.nil : DenoteMembers [] [] := rfl

theorem DenoteItems.cons
    {n : Node} {d : Datum} {ns : List Node} {ds : List Datum} (hn : n.Denotes d)
    (hns : DenoteItems ns ds) :
    DenoteItems (n :: ns) (d :: ds) := by
  rw [DenoteItems, List.map_cons, hn, hns]

theorem DenoteMembers.cons
    {n : Node} {d : Datum} {ms : List (Node × Node)} {ds : List (Text × Datum)}
    (hn : n.Denotes d) (hms : DenoteMembers ms ds) (k : Text) :
    DenoteMembers ((.scalar none true k, n) :: ms) ((k, d) :: ds) := by
  rw [DenoteMembers, List.map_cons, List.map_cons, hn, hms]

section Reads

variable {t : Tree} {ts : List Tree} {ms : List (Text × Tree)}
  {rest r' : List Char}

theorem blockItems_eq_none
    (hnode : blockNode fuel (column + 1) true false
      ⟨rest, column + 1, line, false, anchors⟩ = none) :
    blockItems (fuel + 1) column false
      ⟨'-' :: rest, column, line, fresh, anchors⟩ = none := by
  rw [blockItems]
  change (blockNode fuel (column + 1) true false
    ⟨rest, column + 1, line, false, anchors⟩).bind _ = _
  rw [hnode, Option.bind_none]

theorem reads_items_last
    (hr : startsToken r = true) (hend : r = [] ∨ j < column)
    (hnode : Reads Node.Denotes (datum? t) r j anchors
      (blockNode fuel (column + 1) true false
      ⟨rest, column + 1, line, false, anchors⟩)) :
    Reads DenoteItems (itemData? [t]) r j anchors
      (blockItems (fuel + 1) column false
      ⟨'-' :: rest, column, line, fresh, anchors⟩) := by
  rw [itemData?, itemData?]
  refine hnode.bind blockItems_eq_none ?_
  intro n s line' d hfirst hn hs
  rw [blockItems_last hfirst hs hend]
  exact ⟨[n], _, line', rfl, .cons hn .nil, toToken_self hr true⟩

theorem reads_items_next
    (hcolumn : 0 < column)
    (hnode : Reads Node.Denotes (datum? t) ('-' :: ' ' :: r') column anchors
      (blockNode fuel (column + 1) true false
      ⟨rest, column + 1, line, false, anchors⟩))
    (hrest : ∀ line', Reads DenoteItems (itemData? ts) r j anchors
      (blockItems fuel column false
      ⟨'-' :: ' ' :: r', column, line', true, anchors⟩)) :
    Reads DenoteItems (itemData? (t :: ts)) r j anchors
      (blockItems (fuel + 1) column false
      ⟨'-' :: rest, column, line, fresh, anchors⟩) := by
  rw [itemData?]
  refine hnode.bind blockItems_eq_none ?_
  intro n s line' d hfirst hn hs
  rw [blockItems_next hfirst hs hcolumn]
  exact (hrest line').map fun _ _ _ hns => .cons hn hns

theorem blockMembers_eq_none
    (hk : isFieldName k = true) (hrest : endsWord rest = true)
    (hnode : blockNode fuel (column + 1) false true
      ⟨rest, column + (Text.chars k).length + 1, line, false, anchors⟩ = none) :
    blockMembers (fuel + 2) column
      ⟨Text.chars k ++ ':' :: rest, column, line, fresh, anchors⟩ = none := by
  rw [blockMembers, blockMember_eq hk hrest, hnode]
  rfl

theorem reads_members_last
    (hk : isFieldName k = true) (hrest : endsWord rest = true)
    (hr : startsToken r = true) (hend : r = [] ∨ j < column)
    (hnode : Reads Node.Denotes (datum? t) r j anchors
      (blockNode fuel (column + 1) false true
      ⟨rest, column + (Text.chars k).length + 1, line, false, anchors⟩)) :
    Reads DenoteMembers (memberData? [(k, t)]) r j anchors
      (blockMembers (fuel + 2) column
      ⟨Text.chars k ++ ':' :: rest, column, line, fresh, anchors⟩) := by
  rw [memberData?, memberData?]
  refine hnode.bind (blockMembers_eq_none hk hrest) ?_
  intro n s line' d hfirst hn hs
  have hmember : blockMember (fuel + 1) column
      ⟨Text.chars k ++ ':' :: rest, column, line, fresh, anchors⟩ =
      some ((.scalar none true k, n), s) := by
    rw [blockMember_eq hk hrest, hfirst]
    rfl
  rw [blockMembers_last hmember hs hend]
  exact ⟨_, _, line', rfl, DenoteMembers.cons hn .nil k, toToken_self hr true⟩

theorem reads_members_next
    {k' : Text} (hk : isFieldName k = true) (hk' : isFieldName k' = true)
    (hrest : endsWord rest = true)
    (hnode : Reads Node.Denotes (datum? t) (Text.chars k' ++ ':' :: r')
      column anchors
      (blockNode fuel (column + 1) false true
        ⟨rest, column + (Text.chars k).length + 1, line, false, anchors⟩))
    (htail : ∀ line', Reads DenoteMembers (memberData? ms) r j anchors
      (blockMembers (fuel + 1) column
      ⟨Text.chars k' ++ ':' :: r', column, line', true, anchors⟩)) :
    Reads DenoteMembers (memberData? ((k, t) :: ms)) r j anchors
      (blockMembers (fuel + 2) column
      ⟨Text.chars k ++ ':' :: rest, column, line, fresh, anchors⟩) := by
  rw [memberData?]
  refine hnode.bind (blockMembers_eq_none hk hrest) ?_
  intro n s line' d hfirst hn hs
  have hmember : blockMember (fuel + 1) column
      ⟨Text.chars k ++ ':' :: rest, column, line, fresh, anchors⟩ =
      some ((.scalar none true k, n), s) := by
    rw [blockMember_eq hk hrest, hfirst]
    rfl
  rw [blockMembers_next hmember hk' hs]
  exact (htail line').map fun _ _ _ hms => DenoteMembers.cons hn hms k

end Reads

/-! ## Trees -/

theorem endsWord_valueChars (indent : Nat) (t : Tree) (r : List Char) :
    endsWord (valueChars indent t ++ r) = true := by
  unfold valueChars
  split <;> rfl

theorem exists_itemChars_eq_cons (indent : Nat) (t : Tree) :
    ∃ cs, itemChars indent t = ' ' :: cs := by
  unfold itemChars
  split <;> exact ⟨_, rfl⟩

theorem map_fst_memberData?
    {ms : List (Text × Tree)} {ds : List (Text × Datum)}
    (h : memberData? ms = some ds) :
    ds.map Prod.fst = ms.map Prod.fst := by
  induction ms generalizing ds with
  | nil =>
    rw [memberData?] at h
    cases h
    rfl
  | cons m ms ih =>
    rw [memberData?] at h
    obtain ⟨d, -, h⟩ := Option.bind_eq_some_iff.1 h
    obtain ⟨es, hes, rfl⟩ := Option.map_eq_some_iff.1 h
    rw [List.map_cons, List.map_cons, ih hes]

theorem reads_list
    {t : Tree} {ts : List Tree} {rest : List Char} {s : Cursor} {indent : Nat}
    (hs : s.toToken (!keys) =
      ⟨'-' :: (itemChars indent t ++ rest), column, line, fresh, anchors⟩)
    (hcolumn : 0 < column) (hfloor : floor ≤ column)
    (hkeys : (keys || fresh) = true)
    (hitems : Reads DenoteItems (itemData? ts) r j anchors
      (blockItems fuel column false
      ⟨'-' :: (itemChars indent t ++ rest), column, line, fresh, anchors⟩)) :
    Reads Node.Denotes (datum? (.list ts)) r j anchors
      (blockNode (fuel + 1) floor keys value s) := by
  obtain ⟨cs, hcs⟩ := exists_itemChars_eq_cons indent t
  rw [hcs] at hs hitems
  rw [blockNode_items hs hcolumn hfloor hkeys, datum?]
  exact hitems.map fun _ _ _ h => denotes_sequence h

theorem reads_record
    {ms : List (Text × Tree)} {rest : List Char} {s : Cursor}
    (hk : isFieldName k = true) (hrest : endsWord rest = true)
    (hs : s.toToken (!keys) =
      ⟨Text.chars k ++ ':' :: rest, column, line, fresh, anchors⟩)
    (hfloor : floor ≤ column) (hkeys : (keys || fresh) = true)
    (hdistinct : (ms.map Prod.fst).Nodup)
    (hnames : ∀ m ∈ ms, isFieldName m.1 = true)
    (hmembers : Reads DenoteMembers (memberData? ms) r j anchors
      (blockMembers fuel column
      ⟨Text.chars k ++ ':' :: rest, column, line, fresh, anchors⟩)) :
    Reads Node.Denotes (datum? (.record ms)) r j anchors
      (blockNode (fuel + 1) floor keys value s) := by
  rw [blockNode_members hk hrest hs hfloor hkeys, datum?]
  refine hmembers.map ?_
  intro ns ds hds hns
  have hkeys := map_fst_memberData? hds
  refine denotes_mapping hns ?_ (by rwa [hkeys])
  intro d hd
  have hkey : d.1 ∈ ms.map Prod.fst := by
    rw [← hkeys]
    exact List.mem_map_of_mem hd
  obtain ⟨m, hm, hkey⟩ := List.mem_map.1 hkey
  rw [← hkey]
  exact hnames m hm

-- The fuel is three for each character, so that a call can hand on less than it
-- got for each character it leaves behind: a value, the members it may consist
-- of, and the first of them share their first character.

/-- The tree is read as the value of a key, wherever that stands. -/
def ReadsValue (t : Tree) : Prop :=
  ∀ (r : List Char) (column line j fuel indent : Nat)
    (anchors : List (Text × Node)), startsToken r = true → j ≤ indent →
    3 * (valueChars indent t ++ (List.replicate j ' ' ++ r)).length + 3 ≤ fuel →
    Reads Node.Denotes (datum? t) r j anchors
    (blockNode fuel (indent + 1) false true
      ⟨valueChars indent t ++ (List.replicate j ' ' ++ r), column, line,
      false, anchors⟩)

/-- The tree is read as an item of a list, wherever that stands. -/
def ReadsItem (t : Tree) : Prop :=
  ∀ (r : List Char) (line j fuel indent : Nat) (anchors : List (Text × Node)),
    startsToken r = true → j ≤ indent →
    3 * (itemChars indent t ++ (List.replicate j ' ' ++ r)).length + 3 ≤ fuel →
    Reads Node.Denotes (datum? t) r j anchors
    (blockNode fuel (indent + 1) true false
      ⟨itemChars indent t ++ (List.replicate j ' ' ++ r), indent + 1, line,
      false, anchors⟩)

variable {indent : Nat}

theorem reads_items
    {t : Tree} {ts : List Tree} (hts : ∀ x ∈ t :: ts, ReadsItem x)
    (hindent : 0 < indent) (hr : startsToken r = true) (hj : j ≤ indent)
    (hend : r = [] ∨ j < indent)
    (hfuel : 3 *
      ('-' :: (itemChars indent t ++
      (itemsChars indent ts ++ (List.replicate j ' ' ++ r)))).length + 2 ≤
      fuel) :
    Reads DenoteItems (itemData? (t :: ts)) r j anchors
      (blockItems fuel indent false
      ⟨'-' :: (itemChars indent t ++
      (itemsChars indent ts ++ (List.replicate j ' ' ++ r))), indent,
      line, fresh, anchors⟩) := by
  obtain ⟨fuel, rfl⟩ : ∃ k, fuel = k + 1 := ⟨fuel - 1, by omega⟩
  induction ts generalizing t fuel line fresh with
  | nil =>
    rw [itemsChars, List.nil_append] at hfuel ⊢
    rw [List.length_cons] at hfuel
    have hitem :=
      hts t List.mem_cons_self r line j fuel indent anchors hr hj (by omega)
    exact reads_items_last hr hend hitem
  | cons t' ts ih =>
    obtain ⟨hhead, htail⟩ := List.forall_mem_cons.1 hts
    obtain ⟨cs, hcs⟩ := exists_itemChars_eq_cons indent t'
    rw [itemsChars] at hfuel ⊢
    simp only [List.cons_append, List.append_assoc, List.length_cons,
      List.length_append, List.length_replicate] at hfuel ⊢ ih
    obtain ⟨fuel, rfl⟩ : ∃ k, fuel = k + 1 := ⟨fuel - 1, by omega⟩
    have hitem :=
      hhead ('-' ::
        (itemChars indent t' ++
        (itemsChars indent ts ++ (List.replicate j ' ' ++ r))))
      line indent (fuel + 1) indent anchors rfl (Nat.le_refl indent)
      (by
        simp only [List.length_cons, List.length_append, List.length_replicate]
        omega)
    have hitems : ∀ line', Reads DenoteItems (itemData? (t' :: ts)) r j anchors
        (blockItems (fuel + 1) indent false
        ⟨'-' :: (itemChars indent t' ++
        (itemsChars indent ts ++ (List.replicate j ' ' ++ r))), indent,
        line', true,
          anchors⟩) := fun line' => ih htail fuel (by omega)
    rw [hcs] at hitem hitems ⊢
    exact reads_items_next hindent hitem hitems

theorem reads_members
    {m : Text × Tree} {ms : List (Text × Tree)}
    (hms : ∀ x ∈ m :: ms, isFieldName x.1 = true ∧ ReadsValue x.2)
    (hr : startsToken r = true) (hj : j ≤ indent) (hend : r = [] ∨ j < indent)
    (hfuel : 3 *
      (Text.chars m.1 ++ ':' ::
      (valueChars indent m.2 ++ (membersChars indent ms ++
      (List.replicate j ' ' ++ r)))).length + 2 ≤ fuel) :
    Reads DenoteMembers (memberData? (m :: ms)) r j anchors
      (blockMembers fuel indent
      ⟨Text.chars m.1 ++ ':' ::
      (valueChars indent m.2 ++
      (membersChars indent ms ++ (List.replicate j ' ' ++ r))),
        indent, line, fresh, anchors⟩) := by
  obtain ⟨fuel, rfl⟩ : ∃ k, fuel = k + 2 := ⟨fuel - 2, by omega⟩
  induction ms generalizing m fuel line fresh with
  | nil =>
    obtain ⟨hkey, hvalue⟩ := hms m List.mem_cons_self
    rw [membersChars, List.nil_append] at hfuel ⊢
    rw [List.length_append, List.length_cons] at hfuel
    apply reads_members_last hkey (endsWord_valueChars indent m.2 _) hr hend
    exact hvalue r _ line j fuel indent anchors hr hj (by omega)
  | cons m' ms ih =>
    obtain ⟨⟨hkey, hvalue⟩, htail⟩ := List.forall_mem_cons.1 hms
    obtain ⟨⟨hkey', -⟩, -⟩ := List.forall_mem_cons.1 htail
    rw [membersChars] at hfuel ⊢
    simp only [List.cons_append, List.append_assoc, List.length_cons,
      List.length_append, List.length_replicate] at hfuel ⊢ ih
    apply reads_members_next hkey hkey' (endsWord_valueChars indent m.2 _)
    · apply hvalue _ _ line indent fuel indent anchors
        (startsToken_fieldName hkey' _) (Nat.le_refl indent)
      simp only [List.length_cons, List.length_append, List.length_replicate]
      omega
    · intro line'
      obtain ⟨fuel, rfl⟩ : ∃ k, fuel = k + 1 := ⟨fuel - 1, by omega⟩
      exact ih htail fuel (by omega)

theorem readsValue_of_isLeaf
    {t : Tree} (hleaf : isLeaf t = true) (ht : t.Within .textual) :
    ReadsValue t := by
  intro r column line j fuel indent anchors hr hj hfuel
  obtain ⟨fuel, rfl⟩ : ∃ k, fuel = k + 3 := ⟨fuel - 3, by omega⟩
  rw [valueChars_of_isLeaf hleaf]
  exact reads_leaf hleaf ht hr hj

theorem readsItem_of_isLeaf
    {t : Tree} (hleaf : isLeaf t = true) (ht : t.Within .textual) :
    ReadsItem t := by
  intro r line j fuel indent anchors hr hj hfuel
  obtain ⟨fuel, rfl⟩ : ∃ k, fuel = k + 3 := ⟨fuel - 3, by omega⟩
  rw [itemChars_of_isLeaf hleaf]
  exact reads_leaf hleaf ht hr hj

theorem readsValue_list
    {t : Tree} {ts : List Tree} (hts : ∀ x ∈ t :: ts, ReadsItem x) :
    ReadsValue (.list (t :: ts)) := by
  intro r column line j fuel indent anchors hr hj hfuel
  obtain ⟨fuel, rfl⟩ : ∃ k, fuel = k + 1 := ⟨fuel - 1, by omega⟩
  rw [valueChars, itemsChars] at hfuel ⊢
  simp only [List.cons_append, List.append_assoc, List.length_cons,
    List.length_append, List.length_replicate] at hfuel ⊢
  apply reads_list (toToken_lineEnd rfl (indent + 2) true) (by omega)
    (by omega) rfl
  apply reads_items hts (by omega) hr (by omega) (.inr (by omega))
  simp only [List.length_cons, List.length_append, List.length_replicate]
  omega

theorem readsItem_list
    {t : Tree} {ts : List Tree} (hts : ∀ x ∈ t :: ts, ReadsItem x) :
    ReadsItem (.list (t :: ts)) := by
  intro r line j fuel indent anchors hr hj hfuel
  obtain ⟨fuel, rfl⟩ : ∃ k, fuel = k + 1 := ⟨fuel - 1, by omega⟩
  rw [itemChars] at hfuel ⊢
  simp only [List.cons_append, List.append_assoc, List.length_cons,
    List.length_append, List.length_replicate] at hfuel ⊢
  apply reads_list (toToken_blank rfl false) (by omega) (by omega) rfl
  apply reads_items hts (by omega) hr (by omega) (.inr (by omega))
  simp only [List.length_cons, List.length_append, List.length_replicate]
  omega

section Record

variable {m : Text × Tree} {ms : List (Text × Tree)}
  (hdistinct : ((m :: ms).map Prod.fst).Nodup)
  (hms : ∀ x ∈ m :: ms, isFieldName x.1 = true ∧ ReadsValue x.2)
include hdistinct hms

theorem readsValue_record : ReadsValue (.record (m :: ms)) := by
  intro r column line j fuel indent anchors hr hj hfuel
  obtain ⟨fuel, rfl⟩ : ∃ k, fuel = k + 1 := ⟨fuel - 1, by omega⟩
  have hkey := (hms m List.mem_cons_self).1
  rw [valueChars, membersChars] at hfuel ⊢
  simp only [List.cons_append, List.append_assoc, List.length_cons,
    List.length_append, List.length_replicate] at hfuel ⊢
  apply reads_record hkey (endsWord_valueChars (indent + 2) m.2 _)
    (toToken_lineEnd (startsToken_fieldName hkey _) (indent + 2) true)
    (by omega) rfl hdistinct
    fun x hx => (hms x hx).1
  apply reads_members hms hr (by omega) (.inr (by omega))
  simp only [List.length_cons, List.length_append, List.length_replicate]
  omega

theorem readsItem_record : ReadsItem (.record (m :: ms)) := by
  intro r line j fuel indent anchors hr hj hfuel
  obtain ⟨fuel, rfl⟩ : ∃ k, fuel = k + 1 := ⟨fuel - 1, by omega⟩
  have hkey := (hms m List.mem_cons_self).1
  rw [itemChars] at hfuel ⊢
  simp only [List.cons_append, List.append_assoc, List.length_cons,
    List.length_append, List.length_replicate] at hfuel ⊢
  apply reads_record hkey (endsWord_valueChars (indent + 2) m.2 _)
    (toToken_blank (startsToken_fieldName hkey _) false)
    (by omega) rfl hdistinct fun x hx => (hms x hx).1
  apply reads_members hms hr (by omega) (.inr (by omega))
  simp only [List.length_cons, List.length_append, List.length_replicate]
  omega

end Record

/-- A regular tree of well-formed texts is read wherever it stands. -/
theorem reads_of_regular
    {n : Nat} {t : Tree} (hregular : t.Regular n) (ht : t.Within .textual) :
    ReadsValue t ∧ ReadsItem t := by
  apply regular_induction ?_ ?_ ?_ hregular ht
  · intro t hleaf ht
    exact ⟨readsValue_of_isLeaf hleaf ht, readsItem_of_isLeaf hleaf ht⟩
  · intro t ts hts
    have hitems : ∀ x ∈ t :: ts, ReadsItem x := fun x hx => (hts x hx).2
    exact ⟨readsValue_list hitems, readsItem_list hitems⟩
  · intro m ms hdistinct hms
    have hmembers : ∀ x ∈ m :: ms, isFieldName x.1 = true ∧ ReadsValue x.2 :=
      fun x hx => ⟨(hms x hx).1, (hms x hx).2.1⟩
    exact ⟨readsValue_record hdistinct hmembers,
      readsItem_record hdistinct hmembers⟩

/-! ## Documents -/

theorem chars?_ofChars (cs : List Char) :
    chars? (Text.ofChars cs) = some cs := by
  rw [chars?, Text.scalars_ofChars]
  induction cs with
  | nil => rfl
  | cons c cs ih =>
    rw [List.map_cons, List.mapM_cons, ih]
    rfl

/-- A document that starts with the name of a field is read as a block. -/
theorem parse?_fieldName
    {t : Text} (hk : isFieldName k = true) (ht : Spells t (Text.chars k ++ r)) :
    parse? t =
      (blockNode (8 * (Text.chars k ++ r).length + 32) 0 true false
      { rest := Text.chars k ++ r }).map
      Prod.fst := by
  have hmark : dropMark t = t := by
    obtain ⟨b, k, rfl⟩ :=
      List.exists_cons_of_ne_nil (show k ≠ [] by rintro rfl; cases hk)
    have hword :=
      isWordByte_iff.1 (isWordByte_of_isFieldName hk List.mem_cons_self)
    rw [ht.text, Text.ofChars_append,
      Text.ofChars_chars (isWellFormed_of_isFieldName hk), List.cons_append]
    unfold dropMark
    split
    next h =>
      obtain ⟨rfl, -⟩ := List.cons.inj h
      exact absurd hword (by decide)
    · rfl
  have hchars : chars? t = some (Text.chars k ++ r) := by
    rw [ht.text, chars?_ofChars]
  have hallowed : (Text.chars k ++ r).all isAllowed = true :=
    List.all_eq_true.2 ht.allowed
  obtain ⟨hempty, hdocument⟩ : (Text.chars k ++ r).isEmpty = false ∧
      atDocumentMark { rest := Text.chars k ++ r } = false :=
      Bool.or_eq_false_iff.1 (atEnd_fieldName hk r)
  have hdirectives : ∀ fuel, directives? (fuel + 1) false false
      { rest := Text.chars k ++ r } =
      some ({ rest := Text.chars k ++ r }, false) := by
    intro fuel
    rw [directives?, toToken_self (startsToken_fieldName hk r)]
    refine if_neg ?_
    rw [Bool.and_eq_true, decide_eq_true_iff, decide_eq_true_iff]
    rintro ⟨-, hpercent⟩
    obtain ⟨c, cs, hcs, hc⟩ := exists_chars_eq_cons hk
    rw [hcs] at hpercent
    cases hpercent
    exact absurd hc (by decide)
  rw [parse?, hmark, hchars]
  change (if (!(Text.chars k ++ r).all isAllowed) = true then none else _) = _
  rw [hallowed, if_neg (by decide), hdirectives]
  change (if (Text.chars k ++ r).isEmpty = true then none else _) = _
  rw [hempty, if_neg (by decide), hdocument]
  rfl

theorem Reads.map_datum
    {expected : Option Datum} {result : Option (Node × Cursor)}
    (h : Reads Node.Denotes expected r j anchors result) :
    (result.map Prod.fst).map Node.datum = expected := by
  cases expected with
  | none =>
    have hnone : result = none := h
    rw [hnone]
    rfl
  | some d =>
    obtain ⟨n, s, line, rfl, hn, -⟩ := h
    exact congrArg some hn

/-- The document of a record is read as what comes back of it. -/
theorem parse?_document
    {n : Nat} {m : Text × Tree} {ms : List (Text × Tree)}
    (hregular : (Tree.record (m :: ms)).Regular n)
    (ht : (Tree.record (m :: ms)).Within .textual) :
    (parse? (document (.record (m :: ms)))).map Node.datum =
      datum? (.record (m :: ms)) := by
  cases n with
  | zero => exact hregular.elim
  | succ n =>
    rw [Tree.Within] at ht
    obtain ⟨hdistinct, hparts⟩ := hregular
    have hkey := (hparts m List.mem_cons_self).1
    have hspells : Spells (document (.record (m :: ms)))
        (membersChars 0 (m :: ms)) := by
      apply spells_renderMembers
      intro x hx
      obtain ⟨hname, hvalue⟩ := hparts x hx
      exact ⟨hname, fun indent =>
        (spells_of_regular hvalue (ht.2 x hx).2 indent).1⟩
    have hmembers : ∀ x ∈ m :: ms, isFieldName x.1 = true ∧ ReadsValue x.2 := by
      intro x hx
      obtain ⟨hname, hvalue⟩ := hparts x hx
      exact ⟨hname, (reads_of_regular hvalue (ht.2 x hx).2).1⟩
    -- Nothing stands behind the last member.
    have hchars : membersChars 0 (m :: ms) = Text.chars m.1 ++ ':' ::
        (valueChars 0 m.2 ++ (membersChars 0 ms ++
        (List.replicate 0 ' ' ++ []))) := by
      rw [membersChars]
      simp
    rw [hchars] at hspells
    rw [parse?_fieldName hkey hspells]
    apply Reads.map_datum
    apply reads_record hkey (endsWord_valueChars 0 m.2 _)
      (toToken_self (startsToken_fieldName hkey _) _)
      (Nat.le_refl 0) rfl hdistinct fun x hx => (hmembers x hx).1
    apply reads_members hmembers rfl (Nat.le_refl 0) (.inl rfl)
    omega

end

end Yaml

end ProtocolCorpus
