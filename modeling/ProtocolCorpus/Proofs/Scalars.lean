import ProtocolCorpus.Text.Scalar

/-!
# Characters and bytes

A text can be looked at as bytes and as scalars. Writing the scalars of a text
gives its bytes again, and a text that was written from characters is read as
these characters; so the well-formed texts are the ones that were written from
characters.
-/

namespace ProtocolCorpus

namespace Scalar

variable {b c : UInt8} {n : Nat}

theorem isTail_iff :
    isTail b = true ↔ 0x80 ≤ b.toNat ∧ b.toNat ≤ 0xBF := by
  simp [isTail, UInt8.le_iff_toNat_le]

/-! ## Reading one character -/

theorem first_one (hn : b.toNat = n) (hhigh : n < 0x80) (rest : Text) :
    first b rest = (.char (Char.ofNat n), 0) := by
  unfold first
  rw [if_pos (by rw [UInt8.lt_iff_toNat_lt, hn]; exact hhigh), hn]

theorem first_two (hb : 0xC2 ≤ b.toNat ∧ b.toNat ≤ 0xDF) (hc : isTail c = true)
    (hn : (b.toNat - 0xC0) * 0x40 + (c.toNat - 0x80) = n) (rest : Text) :
    first b (c :: rest) = (.char (Char.ofNat n), 1) := by
  unfold first
  rw [if_neg (by simp [UInt8.lt_iff_toNat_lt]; omega)]
  simp [UInt8.le_iff_toNat_le, hb, hc, hn]

theorem first_three {d : UInt8} (hb : 0xE0 ≤ b.toNat ∧ b.toNat ≤ 0xEF)
    (hc : isTail c = true)
    (hd : isTail d = true)
    (hn : (b.toNat - 0xE0) * 0x1000 + (c.toNat - 0x80) * 0x40 +
      (d.toNat - 0x80) = n)
    (hlow : 0x800 ≤ n) (hvalid : ¬(0xD800 ≤ n ∧ n ≤ 0xDFFF)) (rest : Text) :
    first b (c :: d :: rest) = (.char (Char.ofNat n), 2) := by
  have htwo : ¬b.toNat ≤ 0xDF := by omega
  unfold first
  rw [if_neg (by simp [UInt8.lt_iff_toNat_lt]; omega)]
  simp [UInt8.le_iff_toNat_le, hb, hc, hd, hn, hlow, htwo]
  omega

theorem first_four {d e : UInt8} (hb : 0xF0 ≤ b.toNat ∧ b.toNat ≤ 0xF4)
    (hc : isTail c = true)
    (hd : isTail d = true) (he : isTail e = true)
    (hn : (b.toNat - 0xF0) * 0x40000 + (c.toNat - 0x80) * 0x1000 +
      (d.toNat - 0x80) * 0x40
      + (e.toNat - 0x80) = n) (hlow : 0x10000 ≤ n) (hhigh : n ≤ 0x10FFFF)
      (rest : Text) :
    first b (c :: d :: e :: rest) = (.char (Char.ofNat n), 3) := by
  have htwo : ¬b.toNat ≤ 0xDF := by omega
  have hthree : ¬b.toNat ≤ 0xEF := by omega
  unfold first
  rw [if_neg (by simp [UInt8.lt_iff_toNat_lt]; omega)]
  simp [UInt8.le_iff_toNat_le, hb, hc, hd, he, hn, hlow, hhigh, htwo, hthree]

theorem utf8EncodeChar_one
    {c : Char} (hc : c.toNat < 0x80) :
    String.utf8EncodeChar c = [c.toUInt8] := by
  have hval : c.val.toNat ≤ 0x7F := Nat.le_of_lt_succ hc
  rw [String.utf8EncodeChar, if_pos hval]
  rfl

/-- A byte behind the first of a character carries six bits. -/
theorem toNat_tail (n : Nat) :
    (UInt8.ofNat (n % 0x40 + 0x80)).toNat = n % 0x40 + 0x80 :=
  UInt8.toNat_ofNat_of_lt (show n % 0x40 + 0x80 < 256 by omega)

theorem isTail_tail (n : Nat) :
    isTail (UInt8.ofNat (n % 0x40 + 0x80)) = true := by
  rw [isTail_iff, toNat_tail]
  omega

/-- A character that was written is read, and reading stops behind it. -/
theorem first_utf8EncodeChar (c : Char) (rest : Text) :
    ∃ b tail, String.utf8EncodeChar c = b :: tail ∧ first b (tail ++ rest) =
    (.char c, tail.length) := by
  have hvalid : c.val.toNat < 0xD800 ∨ 0xDFFF < c.val.toNat ∧
    c.val.toNat < 0x110000 := c.valid
  have hchar : Char.ofNat c.val.toNat = c := Char.ofNat_toNat c
  have hlead : ∀ n, n < 256 → (UInt8.ofNat n).toNat = n := fun n hn =>
    UInt8.toNat_ofNat_of_lt hn
  unfold String.utf8EncodeChar
  dsimp only
  split
  next hone =>
    refine ⟨_, _, rfl, ?_⟩
    rw [first_one (hlead _ (by omega)) (by omega), hchar]
    rfl
  next hone =>
    split
    next htwo =>
      refine ⟨_, _, rfl, ?_⟩
      rw [List.singleton_append,
        first_two (n := c.val.toNat) ?_ (isTail_tail _) ?_, hchar]
      · rfl
      · rw [hlead _ (by omega)]
        omega
      · rw [hlead _ (by omega), toNat_tail]
        omega
    next htwo =>
      split
      next hthree =>
        refine ⟨_, _, rfl, ?_⟩
        rw [List.cons_append, List.singleton_append,
          first_three (n := c.val.toNat) ?_ (isTail_tail _)
          (isTail_tail _) ?_ (by omega) (by omega), hchar]
        · rfl
        · rw [hlead _ (by omega)]
          omega
        · rw [hlead _ (by omega), toNat_tail, toNat_tail]
          omega
      next hthree =>
        refine ⟨_, _, rfl, ?_⟩
        rw [List.cons_append, List.cons_append, List.singleton_append,
          first_four (n := c.val.toNat) ?_ (isTail_tail _) (isTail_tail _)
          (isTail_tail _) ?_ (by omega)
            (by omega), hchar]
        · rfl
        · rw [hlead _ (by omega)]
          omega
        · rw [hlead _ (by omega), toNat_tail, toNat_tail, toNat_tail]
          omega

/-! ## Writing what was read -/

theorem val_ofNat (hn : n.isValidChar) :
    (Char.ofNat n).val.toNat = n := by
  rw [Char.ofNat, dif_pos hn]
  rfl

/-- A character whose first byte is low is that byte. -/
theorem toNat_eq_of_lead_lt {c : Char} {tail : Text}
    (hc : String.utf8EncodeChar c = b :: tail) (hb : b.toNat < 0x80) :
    c.toNat = b.toNat := by
  obtain ⟨b', tail', hc', hfirst⟩ := first_utf8EncodeChar c []
  obtain ⟨rfl, -⟩ := List.cons.inj (hc.symm.trans hc')
  rw [first_one rfl hb] at hfirst
  have hchar : Char.ofNat b.toNat = c := Scalar.char.inj (Prod.mk.inj hfirst).1
  rw [← hchar, Char.toNat, val_ofNat (by left; omega)]

theorem ofNat_eq (h : n = b.toNat) :
    UInt8.ofNat n = b := by
  rw [h, UInt8.ofNat_toNat]

/-- What is read at the front of a text is written with the bytes it was read
from. -/
theorem bytes_first (b : UInt8) (rest : Text) :
    (first b rest).1.bytes = b :: rest.take (first b rest).2 := by
  have hb := b.toNat_lt
  unfold first
  split
  next hone =>
    rw [UInt8.lt_iff_toNat_lt] at hone
    have hval := val_ofNat (n := b.toNat) (.inl (Nat.lt_trans hone (by decide)))
    simp only [bytes, String.utf8EncodeChar, hval]
    rw [if_pos (Nat.le_of_lt_succ hone), UInt8.ofNat_toNat]
    rfl
  next hone =>
    split
    next c more =>
      split
      next htwo =>
        simp only [Bool.and_eq_true, decide_eq_true_eq, UInt8.le_iff_toNat_le,
          isTail_iff, UInt8.reduceToNat] at htwo
        have hval := val_ofNat (n := (b.toNat - 0xC0) * 0x40 + (c.toNat - 0x80))
          (.inl (by omega))
        simp only [bytes, String.utf8EncodeChar, hval]
        rw [if_neg (by omega), if_pos (by omega), ofNat_eq (b := b) (by omega),
          ofNat_eq (b := c) (by omega)]
        rfl
      next =>
        split
        next d more =>
          dsimp only
          split
          next hthree =>
            simp only [Bool.and_eq_true, Bool.not_eq_true',
              Bool.and_eq_false_iff, decide_eq_true_eq, decide_eq_false_iff_not,
              UInt8.le_iff_toNat_le, isTail_iff, UInt8.reduceToNat] at hthree
            have hval :=
              val_ofNat
                (n := (b.toNat - 0xE0) * 0x1000 + (c.toNat - 0x80) * 0x40 +
                (d.toNat - 0x80))
              (by simp only [Nat.isValidChar]; omega)
            simp only [bytes, String.utf8EncodeChar, hval]
            rw [if_neg (by omega), if_neg (by omega), if_pos (by omega),
              ofNat_eq (b := b) (by omega),
              ofNat_eq (b := c) (by omega), ofNat_eq (b := d) (by omega)]
            rfl
          next =>
            split
            next e more =>
              split
              next hfour =>
                simp only [Bool.and_eq_true, decide_eq_true_eq,
                  UInt8.le_iff_toNat_le, isTail_iff, UInt8.reduceToNat] at hfour
                have hval :=
                  val_ofNat
                    (n := (b.toNat - 0xF0) * 0x40000 + (c.toNat - 0x80) * 0x1000
                  + (d.toNat - 0x80) * 0x40 + (e.toNat - 0x80))
                  (by simp only [Nat.isValidChar]; omega)
                simp only [bytes, String.utf8EncodeChar, hval]
                rw [if_neg (by omega), if_neg (by omega), if_neg (by omega),
                  ofNat_eq (b := b) (by omega),
                  ofNat_eq (b := c) (by omega), ofNat_eq (b := d) (by omega),
                  ofNat_eq (b := e) (by omega)]
                rfl
              next => rfl
            next => rfl
        next => rfl
    next => rfl

def char? : Scalar → Option Char
  | .char c => some c
  | .stray _ => none

theorem map_char_filterMap_char?
    {ss : List Scalar} (hss : ss.all isChar = true) :
    ss = (ss.filterMap char?).map .char := by
  induction ss with
  | nil => rfl
  | cons s ss ih =>
    rw [List.all_cons, Bool.and_eq_true] at hss
    cases s with
    | char c => exact congrArg (Scalar.char c :: ·) (ih hss.2)
    | stray b => cases hss.1

end Scalar

/-! ## Texts -/

namespace Text

variable {t : Text}

def ofChars (cs : List Char) : Text :=
  cs.flatMap String.utf8EncodeChar

def chars (t : Text) : List Char :=
  (scalars t).filterMap Scalar.char?

theorem scalarsAfter_eq_scalars_drop (n : Nat) (t : Text) :
    scalarsAfter n t = scalars (t.drop n) := by
  induction n generalizing t with
  | zero => rfl
  | succ n ih =>
    cases t with
    | nil => rfl
    | cons b t =>
      rw [scalarsAfter, ih]
      rfl

theorem scalars_cons (b : UInt8) (t : Text) :
    scalars (b :: t) = (Scalar.first b t).1 ::
    scalars (t.drop (Scalar.first b t).2) := by
  rw [scalars, scalarsAfter, scalarsAfter_eq_scalars_drop]

theorem ofScalars_scalars (t : Text) :
    ofScalars (scalars t) = t := by
  induction hlength : t.length using Nat.strongRecOn generalizing t with
  | ind n ih =>
    cases t with
    | nil => rfl
    | cons b t =>
      have hshorter : (t.drop (Scalar.first b t).2).length < n := by
        rw [← hlength, List.length_drop, List.length_cons]
        omega
      have hrest :
          (scalars (t.drop (Scalar.first b t).2)).flatMap Scalar.bytes =
          t.drop (Scalar.first b t).2 := ih _ hshorter _ rfl
      rw [scalars_cons, ofScalars, List.flatMap_cons, hrest, Scalar.bytes_first,
        List.cons_append, List.take_append_drop]

theorem scalars_utf8EncodeChar_append (c : Char) (t : Text) :
    scalars (String.utf8EncodeChar c ++ t) = .char c :: scalars t := by
  obtain ⟨b, tail, hencoded, hfirst⟩ := Scalar.first_utf8EncodeChar c t
  rw [hencoded, List.cons_append, scalars_cons, hfirst, List.drop_left]

/-- A text of characters is read as these characters, whatever stands behind
them. -/
theorem scalars_ofChars_append (cs : List Char) (t : Text) :
    scalars (ofChars cs ++ t) = cs.map .char ++ scalars t := by
  induction cs with
  | nil => rfl
  | cons c cs ih =>
    rw [ofChars, List.flatMap_cons, List.append_assoc,
      scalars_utf8EncodeChar_append]
    exact congrArg (Scalar.char c :: ·) ih

theorem scalars_ofChars (cs : List Char) :
    scalars (ofChars cs) = cs.map .char := by
  simpa [scalars, scalarsAfter] using scalars_ofChars_append cs []

@[simp]
theorem chars_ofChars (cs : List Char) :
    chars (ofChars cs) = cs := by
  rw [chars, scalars_ofChars, List.filterMap_map]
  exact List.filterMap_some

/-- The well-formed texts are those of characters. -/
theorem ofChars_chars (ht : isWellFormed t = true) :
    ofChars (chars t) = t := by
  have hscalars : scalars t = (chars t).map .char :=
    Scalar.map_char_filterMap_char? ht
  calc
    ofChars (chars t) = ofScalars ((chars t).map .char) := by
      rw [ofChars, ofScalars, List.flatMap_map]
      rfl
    _ = t := by rw [← hscalars, ofScalars_scalars]

theorem scalars_of_ascii (ht : ∀ b ∈ t, b.toNat < 0x80) :
    scalars t = t.map fun b => .char (Char.ofNat b.toNat) := by
  induction t with
  | nil => rfl
  | cons b t ih =>
    rw [List.forall_mem_cons] at ht
    rw [scalars_cons, Scalar.first_one rfl ht.1, List.drop_zero, ih ht.2]
    rfl

theorem isWellFormed_of_ascii (ht : ∀ b ∈ t, b.toNat < 0x80) :
    isWellFormed t = true := by
  rw [isWellFormed, scalars_of_ascii ht, List.all_map]
  exact List.all_eq_true.2 fun _ _ => rfl

theorem chars_of_ascii (ht : ∀ b ∈ t, b.toNat < 0x80) :
    chars t = t.map fun b => Char.ofNat b.toNat := by
  rw [chars, scalars_of_ascii ht, List.filterMap_map]
  exact congrFun List.filterMap_eq_map t

theorem ofChars_append (cs ds : List Char) :
    ofChars (cs ++ ds) = ofChars cs ++ ofChars ds :=
  List.flatMap_append

theorem chars_append
    {s : Text} (hs : isWellFormed s = true) (t : Text) :
    chars (s ++ t) = chars s ++ chars t := by
  have hwritten : scalars (s ++ t) = (chars s).map .char ++ scalars t := by
    rw [← scalars_ofChars_append, ofChars_chars hs]
  rw [chars, hwritten, List.filterMap_append, List.filterMap_map]
  congr 1
  exact List.filterMap_some

end Text

end ProtocolCorpus
