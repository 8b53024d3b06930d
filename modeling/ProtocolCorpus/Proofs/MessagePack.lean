import Mathlib.Algebra.Group.Int.Defs
import Mathlib.Algebra.GroupWithZero.Nat
import Mathlib.Tactic.SplitIfs
import ProtocolCorpus.Interchange.Format
import ProtocolCorpus.Proofs.InterchangeRecords

/-!
# The round trip through MessagePack

Every value is written in the shortest form that the format has for it, so the
reader meets a different form at every power of two. Whatever the form, it reads
the value that was written and stops behind it; a corpus that was written is
read back as it was.
-/

namespace ProtocolCorpus

namespace MessagePack

variable {count n : Nat}

/-- The format carries integers of 64 bits, and counts bytes and items with 32
bits. -/
def limits : Limits where
  text t := t.length < 2 ^ 32
  int n := -2 ^ 63 ≤ n ∧ n < 2 ^ 63
  length n := n < 2 ^ 32

instance : DecidablePred limits.text := fun t =>
    inferInstanceAs (Decidable (t.length < 2 ^ 32))

instance : DecidablePred limits.int := fun n =>
    inferInstanceAs (Decidable (-2 ^ 63 ≤ n ∧ n < 2 ^ 63))

instance : DecidablePred limits.length := fun n =>
    inferInstanceAs (Decidable (n < 2 ^ 32))

def writtenViews (n : Int) : Views :=
  integerViews (n % 2 ^ 64).toNat

/-! ## Numbers of a fixed width -/

theorem length_bigEndian (count n : Nat) :
    (bigEndian count n).length = count := by
  induction count generalizing n with
  | zero => rfl
  | succ count ih => rw [bigEndian, List.length_cons, ih]

theorem foldl_bigEndian (hn : n < 256 ^ count) (start : Nat) :
    (bigEndian count n).foldl (fun n b => n * 256 + b.toNat) start =
    start * 256 ^ count + n := by
  induction count generalizing n start with
  | zero =>
    rw [Nat.pow_zero, Nat.lt_one_iff] at hn
    simp [bigEndian, hn]
  | succ count ih =>
    have hpos : 0 < 256 ^ count := Nat.pow_pos (by decide)
    have hhigh : n / 256 ^ count < 256 := by
      rw [Nat.div_lt_iff_lt_mul hpos, ← Nat.pow_succ']
      exact hn
    have hbyte : (UInt8.ofNat (n / 256 ^ count)).toNat = n / 256 ^ count := by
      rw [UInt8.toNat_ofNat', Nat.mod_eq_of_lt hhigh]
    have hsplit : 256 ^ count * (n / 256 ^ count) + n % 256 ^ count = n :=
      Nat.div_add_mod n _
    have hlow : n % 256 ^ count < 256 ^ count := Nat.mod_lt n hpos
    calc (bigEndian (count + 1) n).foldl (fun n b => n * 256 + b.toNat) start
        = (bigEndian count (n % 256 ^ count)).foldl
            (fun n b => n * 256 + b.toNat)
            (start * 256 + n / 256 ^ count) := by
          rw [bigEndian, List.foldl_cons]
          simp only [Nat.pow_eq, hbyte]
      _ = (start * 256 + n / 256 ^ count) * 256 ^ count + n % 256 ^ count :=
        ih hlow _
      _ = start * 256 ^ (count + 1) + n := by
          rw [Nat.pow_succ', ← Nat.mul_assoc, Nat.add_mul,
            Nat.mul_comm (n / 256 ^ count)]
          omega

/-- A number that was written in some bytes is read from them. -/
theorem word?_bigEndian (count : Nat) (hn : n < 256 ^ count) (rest : Text) :
    word? count (bigEndian count n ++ rest) = some (n, rest) := by
  have hlength := length_bigEndian count n
  unfold word?
  rw [if_neg (by rw [List.length_append]; omega), List.take_left' hlength,
    List.drop_left' hlength, foldl_bigEndian hn, Nat.zero_mul, Nat.zero_add]

theorem bytes?_append (t rest : Text) :
    bytes? t.length (t ++ rest) = some (t, rest) := by
  unfold bytes?
  rw [if_neg (by rw [List.length_append]; omega), List.take_left,
    List.drop_left]

theorem toNat_ofNat (hn : n < 256) :
    (UInt8.ofNat n).toNat = n := by
  rw [UInt8.toNat_ofNat', Nat.mod_eq_of_lt hn]

/-! ## Heads

The head of a text, a list or a record is one byte for a short one, or a byte
that says how many bytes
tell the length, and these. -/

/-- The width that is taken has room if any has. -/
theorem exists_sized_eq {widths : List (UInt8 × Nat)} (h : widths ≠ [])
    (n : Nat) :
    ∃ w ∈ widths, sized n widths = w.1 :: bigEndian w.2 n ∧
      ((∃ v ∈ widths, n < 256 ^ v.2) → n < 256 ^ w.2) := by
  induction widths with
  | nil => exact absurd rfl h
  | cons w wider ih =>
    cases wider with
    | nil =>
      refine ⟨w, List.mem_cons_self, rfl, ?_⟩
      rintro ⟨v, hv, hroom⟩
      rw [List.mem_singleton.1 hv] at hroom
      exact hroom
    | cons x wider =>
      by_cases hroom : n < 256 ^ w.2
      · refine ⟨w, List.mem_cons_self, ?_, fun _ => hroom⟩
        exact if_pos hroom
      · obtain ⟨u, hu, hsized, hwide⟩ := ih (List.cons_ne_nil x wider)
        refine ⟨u, List.mem_cons_of_mem w hu, ?_, ?_⟩
        · rw [← hsized]
          exact if_neg hroom
        · rintro ⟨v, hv, hlt⟩
          rcases List.mem_cons.1 hv with rfl | hv
          · exact absurd hlt hroom
          · exact hwide ⟨v, hv, hlt⟩

theorem length_head_pos
    {widths : List (UInt8 × Nat)} (h : widths ≠ []) (base room n : Nat) :
    0 < (head base room widths n).length := by
  unfold head
  split
  · exact Nat.one_pos
  · obtain ⟨w, -, hsized, -⟩ := exists_sized_eq h n
    rw [hsized]
    exact Nat.succ_pos _

/-- A head is read if it is in one byte and if it is in any of its widths. -/
theorem value?_head
    {base room n : Nat} {widths : List (UInt8 × Nat)} {fuel : Nat} {rest : Text}
    {expected : Option (Datum × Text)}
    (hn : ∃ w ∈ widths, n < 256 ^ w.2) (hbyte : n < room → base + n < 256)
    (hshort : ∀ b : UInt8, n < room → b.toNat = base + n →
      value? (fuel + 1) (b :: rest) = expected)
    (hwide : ∀ w ∈ widths, n < 256 ^ w.2 →
      value? (fuel + 1) (w.1 :: (bigEndian w.2 n ++ rest)) = expected) :
    value? (fuel + 1) (head base room widths n ++ rest) = expected := by
  unfold head
  split
  case isTrue hroom => exact hshort _ hroom (toNat_ofNat (hbyte hroom))
  case isFalse =>
    obtain ⟨w, hw, hsized, hfits⟩ :=
      exists_sized_eq (List.ne_nil_of_mem hn.choose_spec.1) n
    rw [hsized, List.cons_append]
    exact hwide w hw (hfits hn)

theorem sizedText?_bigEndian (count : Nat) (hn : n < 256 ^ count)
    (rest : Text) :
    sizedText? count (bigEndian count n ++ rest) = text? n rest := by
  rw [sizedText?, word?_bigEndian count hn]
  rfl

theorem value?_textHead (hn : n < 2 ^ 32) (fuel : Nat) (rest : Text) :
    value? (fuel + 1) (textHead n ++ rest) = text? n rest := by
  refine value?_head ⟨(0xDB, 4), by simp, hn⟩ (by omega) ?_ ?_
  · intro b hroom hb
    rw [value?]
    dsimp only
    rw [hb, if_neg (by omega), if_neg (by omega), if_neg (by omega),
      if_pos (by omega), Nat.add_sub_cancel_left]
  · intro w hw hfits
    rw [value?]
    simp only [List.mem_cons, List.not_mem_nil, or_false] at hw
    rcases hw with rfl | rfl | rfl
    · exact sizedText?_bigEndian 1 hfits rest
    · exact sizedText?_bigEndian 2 hfits rest
    · exact sizedText?_bigEndian 4 hfits rest

theorem value?_listHead (hn : n < 2 ^ 32) (fuel : Nat) (rest : Text) :
    value? (fuel + 1) (listHead n ++ rest) = list? fuel n rest := by
  refine value?_head ⟨(0xDD, 4), by simp, hn⟩ (by omega) ?_ ?_
  · intro b hroom hb
    rw [value?]
    dsimp only
    rw [hb, if_neg (by omega), if_neg (by omega), if_pos (by omega),
      Nat.add_sub_cancel_left]
  · intro w hw hfits
    have hread := congrArg (Option.bind · fun p => list? fuel p.1 p.2)
      (word?_bigEndian w.2 hfits rest)
    rw [value?]
    simp only [List.mem_cons, List.not_mem_nil, or_false] at hw
    rcases hw with rfl | rfl
    · exact hread
    · exact hread

theorem value?_recordHead (hn : n < 2 ^ 32) (fuel : Nat) (rest : Text) :
    value? (fuel + 1) (recordHead n ++ rest) = record? fuel n rest := by
  refine value?_head ⟨(0xDF, 4), by simp, hn⟩ (by omega) ?_ ?_
  · intro b hroom hb
    rw [value?]
    dsimp only
    rw [hb, if_neg (by omega), if_pos (by omega), Nat.add_sub_cancel_left]
  · intro w hw hfits
    have hread := congrArg (Option.bind · fun p => record? fuel p.1 p.2)
      (word?_bigEndian w.2 hfits rest)
    rw [value?]
    simp only [List.mem_cons, List.not_mem_nil, or_false] at hw
    rcases hw with rfl | rfl
    · exact hread
    · exact hread

/-! ## Integers -/

theorem unsigned?_bigEndian (count : Nat) (hn : n < 256 ^ count) (rest : Text) :
    unsigned? count (bigEndian count n ++ rest) =
    some (.scalar (integerViews n), rest) := by
  rw [unsigned?, word?_bigEndian count hn]
  rfl

theorem value?_natural (hn : n < 2 ^ 64) (fuel : Nat) (rest : Text) :
    value? (fuel + 1) (natural n ++ rest) =
    some (.scalar (integerViews n), rest) := by
  refine value?_head ⟨(0xCF, 8), by simp, hn⟩ (by omega) ?_ ?_
  · intro b hroom hb
    rw [value?]
    dsimp only
    rw [hb, Nat.zero_add, if_pos hroom]
  · intro w hw hfits
    have hread := unsigned?_bigEndian w.2 hfits rest
    rw [value?]
    simp only [List.mem_cons, List.not_mem_nil, or_false] at hw
    rcases hw with rfl | rfl | rfl | rfl
    · exact hread
    · exact hread
    · exact hread
    · exact hread

/-- The complement of a number in some bytes is the complement in all 64 bits,
if the sign bit shows it. -/
theorem extendSign_complement (hcount : count ≤ 8) (hn : n < 256 ^ count / 2) :
    extendSign count (256 ^ count - 1 - n) = 2 ^ 64 - 1 - n := by
  have hle : 256 ^ count ≤ 2 ^ 64 :=
    Nat.le_trans (Nat.pow_le_pow_right (by decide) hcount) (by decide)
  have hsign : ¬256 ^ count - 1 - n < Nat.pow 256 count / 2 := by
    rw [Nat.pow_eq]
    omega
  rw [extendSign, if_neg hsign, Nat.pow_eq]
  omega

theorem signed?_bigEndian (hcount : count ≤ 8) (hn : n < 256 ^ count / 2)
    (rest : Text) :
    signed? count (bigEndian count (256 ^ count - 1 - n) ++ rest) =
      some (.scalar (integerViews (2 ^ 64 - 1 - n)), rest) := by
  rw [signed?, word?_bigEndian count (by omega),
    ← extendSign_complement hcount hn]
  rfl

theorem value?_negative (hn : n < 2 ^ 63) (fuel : Nat) (rest : Text) :
    value? (fuel + 1) (negative n ++ rest) =
    some (.scalar (integerViews (2 ^ 64 - 1 - n)), rest) := by
  unfold negative
  split
  case isTrue hshort =>
    have hhead : (UInt8.ofNat (0x100 - 1 - n)).toNat = 0x100 - 1 - n :=
      toNat_ofNat (by omega)
    have hextended : extendSign 1 (0x100 - 1 - n) = 2 ^ 64 - 1 - n :=
      extendSign_complement (by decide : 1 ≤ 8) (by omega)
    rw [List.singleton_append, value?]
    dsimp only
    rw [hhead, if_neg (by omega), if_neg (by omega), if_neg (by omega),
      if_neg (by omega),
      if_pos (by omega), hextended]
  case isFalse =>
    split
    case isTrue hbyte =>
      rw [List.cons_append, value?]
      exact signed?_bigEndian (by decide : 1 ≤ 8) hbyte rest
    case isFalse =>
      split
      case isTrue hbytes =>
        rw [List.cons_append, value?]
        exact signed?_bigEndian (by decide : 2 ≤ 8) hbytes rest
      case isFalse =>
        split
        case isTrue hbytes =>
          rw [List.cons_append, value?]
          exact signed?_bigEndian (by decide : 4 ≤ 8) hbytes rest
        case isFalse =>
          rw [List.cons_append, value?]
          exact signed?_bigEndian (by decide : 8 ≤ 8) hn rest

theorem value?_integer
    {n : Int} (hn : limits.int n) (fuel : Nat) (rest : Text) :
    value? (fuel + 1) (integer n ++ rest) =
      some (.scalar (writtenViews n), rest) := by
  obtain ⟨hlow, hhigh⟩ := hn
  cases n with
  | ofNat n =>
    have hmod : ((Int.ofNat n) % 2 ^ 64).toNat = n := by
      rw [Int.ofNat_eq_natCast] at hhigh ⊢
      omega
    rw [integer, value?_natural (by rw [Int.ofNat_eq_natCast] at hhigh; omega),
      writtenViews, hmod]
  | negSucc n =>
    have hmod : ((Int.negSucc n) % 2 ^ 64).toNat = 2 ^ 64 - 1 - n := by
      omega
    rw [integer, value?_negative (by omega), writtenViews, hmod]

/-! ## Trees -/

theorem length_integer_pos (n : Int) : 0 < (integer n).length := by
  cases n with
  | ofNat n =>
    exact length_head_pos (List.cons_ne_nil _ _) _ _ n
  | negSucc n =>
    rw [integer]
    unfold negative
    split_ifs <;> exact Nat.succ_pos _

theorem length_text_pos (t : Text) : 0 < (text t).length := by
  rw [text, List.length_append]
  exact Nat.add_pos_left (length_head_pos (List.cons_ne_nil _ _) _ _ t.length) _

theorem length_render_pos (t : Tree) :
    0 < (render t).length := by
  cases t with
  | absent =>
    rw [render]
    exact Nat.one_pos
  | bool b => cases b <;> (rw [render]; exact Nat.one_pos)
  | int n =>
    rw [render]
    exact length_integer_pos n
  | text t =>
    rw [render]
    exact length_text_pos t
  | list ts =>
    rw [render, List.length_append]
    exact Nat.add_pos_left
      (length_head_pos (List.cons_ne_nil _ _) _ _ ts.length) _
  | record ms =>
    rw [render, List.length_append]
    exact Nat.add_pos_left
      (length_head_pos (List.cons_ne_nil _ _) _ _ ms.length) _

theorem value?_text
    {t : Text} (ht : limits.text t) (fuel : Nat) (rest : Text) :
    value? (fuel + 1) (text t ++ rest) =
      some (.scalar { text? := some t }, rest) := by
  rw [text, List.append_assoc, value?_textHead ht, text?, bytes?_append]
  rfl

theorem recordOf_members (ms : List (Text × Tree)) :
    recordOf
    (ms.map fun m => (.scalar { text? := some m.1 }, m.2.datum writtenViews)) =
      .record (ms.map fun m => (m.1, m.2.datum writtenViews)) := by
  have hkeys :
      (ms.map fun m =>
      ((.scalar { text? := some m.1 } : Datum), m.2.datum writtenViews)).mapM
      (fun m => (keyText? m.1).map fun key => (key, m.2)) =
      some (ms.map fun m => (m.1, m.2.datum writtenViews)) := by
    induction ms with
    | nil => rfl
    | cons m ms ih =>
      rw [List.map_cons, List.mapM_cons, ih]
      rfl
  unfold recordOf
  rw [hkeys]

-- The induction is on the tree. Each byte of a written value stands for at most
-- three calls of the reader: one for the value, one for the list or record that
-- it opens, and one for the place in the list.
mutual

/-- A value that was written is read, and reading stops behind it. -/
theorem value?_render
    (t : Tree) (ht : t.Within limits) {fuel : Nat}
    (hfuel : 3 * (render t).length ≤ fuel) (rest : Text) :
    value? fuel (render t ++ rest) = some (t.datum writtenViews, rest) := by
  have hpos := length_render_pos t
  obtain ⟨fuel, rfl⟩ : ∃ n, fuel = n + 2 := ⟨fuel - 2, by omega⟩
  cases t with
  | absent =>
    rw [render, Tree.datum, List.singleton_append, value?]
    rfl
  | bool b =>
    cases b with
    | false =>
      rw [render, Tree.datum, List.singleton_append, value?]
      rfl
    | true =>
      rw [render, Tree.datum, List.singleton_append, value?]
      rfl
  | int n =>
    rw [Tree.Within] at ht
    rw [render, Tree.datum, value?_integer ht]
  | text t =>
    rw [Tree.Within] at ht
    rw [render, Tree.datum, value?_text ht]
  | list ts =>
    rw [Tree.Within] at ht
    have hhead : 0 < (listHead ts.length).length :=
      length_head_pos (List.cons_ne_nil _ _) _ _ _
    rw [render, List.length_append] at hfuel
    rw [render, Tree.datum, List.append_assoc, value?_listHead ht.1, list?,
      items?_renderItems ts ht.2 (by omega) rest]
    rfl
  | record ms =>
    rw [Tree.Within] at ht
    have hhead : 0 < (recordHead ms.length).length :=
      length_head_pos (List.cons_ne_nil _ _) _ _ _
    rw [render, List.length_append] at hfuel
    rw [render, Tree.datum, List.append_assoc, value?_recordHead ht.1, record?,
      members?_renderMembers ms ht.2 (by omega) rest, ← recordOf_members]
    rfl

theorem items?_renderItems
    (ts : List Tree) (hts : ∀ t ∈ ts, t.Within limits) {fuel : Nat}
    (hfuel : 3 * (renderItems ts).length < fuel) (rest : Text) :
    items? fuel ts.length (renderItems ts ++ rest) =
      some (ts.map (Tree.datum writtenViews), rest) := by
  obtain ⟨fuel, rfl⟩ : ∃ n, fuel = n + 1 := ⟨fuel - 1, by omega⟩
  cases ts with
  | nil =>
    rw [renderItems, List.length_nil, items?]
    rfl
  | cons t ts =>
    have hpos := length_render_pos t
    rw [renderItems, List.length_append] at hfuel
    rw [renderItems, List.append_assoc, List.length_cons, items?,
      value?_render t (hts t List.mem_cons_self) (by omega)]
    dsimp only [Option.bind_eq_bind, Option.bind_some]
    rw [items?_renderItems ts (fun u hu => hts u (List.mem_cons_of_mem t hu))
      (by omega)]
    rfl

theorem members?_renderMembers
    (ms : List (Text × Tree))
    (hms : ∀ m ∈ ms, limits.text m.1 ∧ m.2.Within limits) {fuel : Nat}
    (hfuel : 3 * (renderMembers ms).length < fuel) (rest : Text) :
    members? fuel ms.length (renderMembers ms ++ rest) =
      some (ms.map fun m =>
        (.scalar { text? := some m.1 }, m.2.datum writtenViews), rest) := by
  obtain ⟨fuel, rfl⟩ : ∃ n, fuel = n + 1 := ⟨fuel - 1, by omega⟩
  cases ms with
  | nil =>
    rw [renderMembers, List.length_nil, members?]
    rfl
  | cons m ms =>
    obtain ⟨key, t⟩ := m
    obtain ⟨hkey, ht⟩ := hms (key, t) List.mem_cons_self
    have hpos := length_text_pos key
    rw [renderMembers, List.length_append, List.length_append] at hfuel
    obtain ⟨fuel, rfl⟩ : ∃ n, fuel = n + 1 := ⟨fuel - 1, by omega⟩
    rw [renderMembers, List.append_assoc, List.append_assoc, List.length_cons,
      members?, value?_text hkey]
    dsimp only [Option.bind_eq_bind, Option.bind_some]
    rw [value?_render t ht (by omega)]
    dsimp only [Option.bind_eq_bind, Option.bind_some]
    rw [members?_renderMembers ms
      (fun u hu => hms u (List.mem_cons_of_mem _ hu)) (by omega)]
    rfl

end

theorem parse?_render
    {t : Tree} (ht : t.Within limits) :
    parse? (render t) = some (t.datum writtenViews) := by
  have hread := value?_render t ht (Nat.le_succ (3 * (render t).length)) []
  rw [List.append_nil] at hread
  rw [parse?, hread]
  rfl

/-! ## Corpora -/

theorem int?_integerViews
    {n : Int} (hn : limits.int n) :
    (integerViews (n % 2 ^ 64).toNat).int? = some n := by
  obtain ⟨hlow, hhigh⟩ := hn
  unfold integerViews
  dsimp only
  split
  · congr 1
    omega
  · congr 1
    omega

theorem word?_integerViews (w : UInt32) :
    (integerViews ((w.toNat : Int) % 2 ^ 64).toNat).word? = some w := by
  have hw : w.toNat < 2 ^ 32 := w.toNat_lt
  have hmod : ((w.toNat : Int) % 2 ^ 64).toNat = w.toNat := by
    omega
  rw [hmod]
  exact congrArg some (UInt32.ofNat_toNat (x := w))

def medium : Medium where
  conventions := conventions
  limits := limits
  integer := writtenViews
  int?_integer _ hn := int?_integerViews hn
  word?_integer w := by
    have hw : w.toNat < 2 ^ 32 := w.toNat_lt
    exact ⟨⟨by omega, by omega⟩, word?_integerViews w⟩
  key k hk := by
    have hlength : k.length < 32 := by
      simp only [isPlainKey, Bool.and_eq_true, decide_eq_true_eq] at hk
      exact hk.1
    exact ⟨Nat.lt_trans hlength (by decide), fun field _ => rfl⟩
  length n hn := Nat.lt_trans hn (by decide)

end MessagePack

open Interchange in
/-- A corpus that was written as MessagePack is read back as it was. -/
theorem Interchange.Corpus.read_write_messagePack
    {c : Corpus} (hschema : c.schema = schemaVersion)
    (hc : c.Within MessagePack.limits) :
    Corpus.read .messagePack (c.write .messagePack) = .ok c := by
  have hkeeps : Corpus.codec.Keeps MessagePack.medium c := Corpus.keeps hc
  have hparsed :
      MessagePack.parse? (MessagePack.render (Corpus.codec.write c)) =
      some ((Corpus.codec.write c).datum MessagePack.writtenViews) :=
      MessagePack.parse?_render hkeeps.within
  have hread : Corpus.codec.read MessagePack.conventions
      ((Corpus.codec.write c).datum MessagePack.writtenViews) {} =
      some c := hkeeps.read_eq
  have hbound : (Format.messagePack.parseDatum? (c.write .messagePack)).bind
      (fun d => Corpus.codec.read Format.messagePack.conventions d {}) =
      some c := by
    rw [Corpus.write, Format.render, Format.parseDatum?, hparsed,
      Option.bind_some, Format.conventions, hread]
  rw [Corpus.read, hbound]
  exact if_pos hschema

namespace Interchange

/-- A corpus at the bounds of the format: integers of 64 bits, a full word, a
text and a list that are too long for the shortest head, lists that are empty
and lists that are not there. -/
def boundary : Corpus where
  schema := schemaVersion
  emitOrder := some []
  documents := some [
    { path := List.replicate 32 0x61
      imports := [{ aliasName := "wl", document := "w.xml" }]
      nullRun := -33
      typeTable := some (List.replicate 16 [])
      interfaces := some [
        { name := "p_i"
          version := 9223372036854775807
          enums :=
            [{ name := "e",
               entries := some [{ name := "all", value := 0xFFFFFFFF }] },
                 { name := "f" }]
          requests := [
            { name := "r"
              since := -9223372036854775808
              typeIndex := 65536
              args := [{ name := "a", kind := "object",
                         interface :=
                           some { name := "i", target := "p_i" } }] }] }] }]

theorem boundary_within : boundary.Within MessagePack.limits := by
  decide

theorem boundary_read_write :
    boundary.schema = schemaVersion ∧ boundary.Within MessagePack.limits ∧
      Corpus.read .messagePack (boundary.write .messagePack) = .ok boundary :=
  ⟨rfl, boundary_within, Corpus.read_write_messagePack rfl boundary_within⟩

end Interchange

end ProtocolCorpus
