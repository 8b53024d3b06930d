import Mathlib.Data.FinEnum
import Mathlib.Data.List.Forall2
import Mathlib.Data.Nat.Digits.Defs
import ProtocolCorpus.Text.Basic

/-!
# Numerals

A number is written in a base without leading zeros, or with as many as a width
asks for, and its digits denote it again.
-/

namespace ProtocolCorpus

namespace Text

variable {d base n : Nat} {b : UInt8} {t : Text}

/-! ## Digits -/

theorem digitValue?_digit (hd : d < 16) :
    digitValue? (digit d) = some d := by
  have hall : ∀ d < 16, digitValue? (digit d) = some d := by decide
  exact hall d hd

theorem isDigit_digit (hd : d < 10) :
    isDigit (digit d) = true := by
  have hall : ∀ d < 10, isDigit (digit d) = true := by decide
  exact hall d hd

theorem digitValue?_lt (h : digitValue? b = some d) :
    d < 16 := by
  simp only [digitValue?, isDigit, Bool.and_eq_true, decide_eq_true_eq,
    UInt8.le_iff_toNat_le, UInt8.reduceToNat] at h
  split at h
  · cases h
    omega
  · split at h
    · cases h
      omega
    · split at h
      · cases h
        omega
      · cases h

/-! ## What a row of digits denotes -/

/-- The byte is a digit of the base with this value, in either case. -/
def Spells (base : Nat) (b : UInt8) (d : Nat) : Prop :=
  d < base ∧ (b = digit d ∨ b = upperByte (digit d))

theorem spells_iff (hbase : base ≤ 16) :
    Spells base b d ↔ digitValue? b = some d ∧ d < base := by
  have hvalue : ∀ d < 16, digitValue? (digit d) = some d ∧
      digitValue? (upperByte (digit d)) = some d := by
    decide
  have hdigit : ∀ b : UInt8, ∀ d ∈ digitValue? b, b = digit d ∨
      b = upperByte (digit d) := by
    decide +kernel
  rw [Spells, and_comm]
  refine and_congr_left fun hd => ⟨?_, hdigit b d⟩
  obtain ⟨hlower, hupper⟩ := hvalue d (by omega)
  rintro (rfl | rfl)
  · exact hlower
  · exact hupper

theorem Spells.toNat_bounds (h : Spells 16 b d) :
    0x30 ≤ b.toNat ∧ b.toNat ≤ 0x66 := by
  have hall : ∀ d < 16, ∀ b ∈ [digit d, upperByte (digit d)], 0x30 ≤ b.toNat ∧
      b.toNat ≤ 0x66 := by
    decide +kernel
  exact hall d h.1 b (by simpa using h.2)

/-- The bytes are digits of the base, at least one, and the number has their
values, the lowest first. -/
def Denotes (base : Nat) (t : Text) (n : Nat) : Prop :=
  t ≠ [] ∧ ∃ ds, List.Forall₂ (Spells base) t.reverse ds ∧
    Nat.ofDigits base ds = n

theorem Denotes.exists_spells (h : Denotes base t n) :
    ∀ b ∈ t, ∃ d, Spells base b d := by
  obtain ⟨-, ds, hds, -⟩ := h
  intro b hb
  rw [← List.mem_reverse] at hb
  generalize t.reverse = u at hds hb
  induction hds with
  | nil => cases hb
  | cons hd _ ih =>
    rcases List.mem_cons.1 hb with rfl | hb
    · exact ⟨_, hd⟩
    · exact ih hb

/-- A row of digits is read as the number that it denotes, and nothing else is
read. -/
theorem natOfDigits?_eq_some_iff (hbase : base ≤ 16) :
    natOfDigits? base t = some n ↔ Denotes base t n := by
  have hrow : ∀ (u : Text) (n : Nat), u.foldr (fun b acc => do
      let n ← acc
      let d ← digitValue? b
      if d < base then some (n * base + d) else none) (some 0) = some n ↔
        ∃ ds, List.Forall₂ (Spells base) u ds ∧ Nat.ofDigits base ds = n := by
    intro u
    induction u with
    | nil => simp [Nat.ofDigits]
    | cons b u ih =>
      intro n
      rw [List.foldr_cons]
      generalize u.foldr _ (some 0) = acc at ih ⊢
      simp only [Option.bind_eq_bind, Option.bind_eq_some_iff,
        Option.ite_none_right_eq_some, Option.some.injEq, ih,
        List.forall₂_cons_left_iff, spells_iff hbase]
      constructor
      · rintro ⟨m, ⟨ds, hds, rfl⟩, d, hd, hlt, rfl⟩
        exact ⟨d :: ds,
          ⟨d, ds, ⟨hd, hlt⟩, hds, rfl⟩, by rw [Nat.ofDigits_cons]; ring⟩
      · rintro ⟨_, ⟨d, ds, ⟨hd, hlt⟩, hds, rfl⟩, rfl⟩
        exact ⟨_, ⟨ds, hds, rfl⟩, d, hd, hlt, by rw [Nat.ofDigits_cons]; ring⟩
  rw [natOfDigits?, Denotes, List.foldl_eq_foldr_reverse]
  split
  next hempty => simp [List.isEmpty_iff.1 hempty]
  next hempty => rw [hrow, and_iff_right (by simpa using hempty)]

theorem natOfDigits?_singleton (hb : digitValue? b = some d) (hd : d < base) :
    natOfDigits? base [b] = some d := by
  simp [natOfDigits?, hb, hd]

theorem natOfDigits?_concat (ht : natOfDigits? base t = some n)
    (hb : digitValue? b = some d) (hd : d < base) :
    natOfDigits? base (t ++ [b]) = some (n * base + d) := by
  unfold natOfDigits? at ht ⊢
  split at ht
  · cases ht
  · rw [if_neg (by simp), List.foldl_append, ht]
    simp [hb, hd]

theorem natOfDigits?_zero_cons (hbase : 0 < base) (ht : t ≠ []) :
    natOfDigits? base (0x30 :: t) = natOfDigits? base t := by
  have hzero : digitValue? 0x30 = some 0 := by decide
  simp [natOfDigits?, ht, hzero, hbase]

theorem natOfDigits?_fill_zero (hbase : 0 < base) (ht : t ≠ []) (k : Nat) :
    natOfDigits? base (fill k 0x30 ++ t) = natOfDigits? base t := by
  induction k with
  | zero => rfl
  | succ k ih =>
    have hne : fill k 0x30 ++ t ≠ [] := List.append_ne_nil_of_right_ne_nil _ ht
    rw [← ih, ← natOfDigits?_zero_cons hbase hne]
    rfl

/-! ## What is written -/

theorem ofNatBase_of_lt (hn : n < base) :
    ofNatBase base n = [digit n] := by
  rw [ofNatBase, Nat.toDigits_of_lt_base hn]
  rfl

theorem ofNatBase_of_le (hbase : 1 < base) (hn : base ≤ n) :
    ofNatBase base n = ofNatBase base (n / base) ++ [digit (n % base)] := by
  rw [ofNatBase, Nat.toDigits_of_base_le hbase hn, List.map_append]
  rfl

theorem ofNatBase_ne_nil (base n : Nat) :
    ofNatBase base n ≠ [] := by
  rw [ofNatBase, Ne, List.map_eq_nil_iff]
  exact Nat.toDigits_ne_nil

theorem natOfDigits?_ofNatBase (hbase : 1 < base) (hsmall : base ≤ 16)
    (n : Nat) :
    natOfDigits? base (ofNatBase base n) = some n := by
  induction n using Nat.strongRecOn with
  | ind n ih =>
    by_cases hn : n < base
    · rw [ofNatBase_of_lt hn]
      exact natOfDigits?_singleton (digitValue?_digit (by omega)) hn
    · have hshorter : n / base < n := Nat.div_lt_self (by omega) hbase
      have hlast : n % base < base := Nat.mod_lt n (by omega)
      rw [ofNatBase_of_le hbase (by omega),
        natOfDigits?_concat (ih _ hshorter) (digitValue?_digit (by omega))
        hlast, Nat.mul_comm, Nat.div_add_mod]

theorem natOfDigits?_ofNat (n : Nat) :
    natOfDigits? 10 (ofNat n) = some n :=
  natOfDigits?_ofNatBase (by decide) (by decide) n

theorem natOfDigits?_hexPadded (width n : Nat) :
    natOfDigits? 16 (hexPadded width n) = some n := by
  rw [hexPadded, padLeft,
    natOfDigits?_fill_zero (by decide) (ofNatBase_ne_nil 16 n),
    natOfDigits?_ofNatBase (by decide) (by decide)]

theorem length_hexPadded {width : Nat} (hwidth : 0 < width)
    (hn : n < 16 ^ width) :
    (hexPadded width n).length = width := by
  have hlength : (ofNatBase 16 n).length ≤ width := by
    rw [ofNatBase, List.length_map]
    exact (Nat.length_toDigits_le_iff (by decide) hwidth).2 hn
  rw [hexPadded, padLeft, List.length_append, fill, List.length_replicate]
  omega

/-- A number starts with a zero only if it is zero. -/
theorem exists_ofNat_eq_cons (n : Nat) :
    ∃ b t, ofNat n = b :: t ∧ isDigit b = true ∧ (b = 0x30 → n = 0 ∧ t = []) ∧
      ∀ c ∈ t, isDigit c = true := by
  induction n using Nat.strongRecOn with
  | ind n ih =>
    by_cases hn : n < 10
    · refine ⟨digit n, [], ofNatBase_of_lt hn, isDigit_digit hn, ?_, by simp⟩
      have hall : ∀ d < 10, digit d = 0x30 → d = 0 := by decide
      exact fun h => ⟨hall n hn h, rfl⟩
    · obtain ⟨b, t, heq, hb, hzero, ht⟩ := ih (n / 10) (by omega)
      refine ⟨b, t ++ [digit (n % 10)], ?_, hb, ?_, ?_⟩
      · rw [ofNat, ofNatBase_of_le (by decide) (by omega)]
        exact congrArg (· ++ [digit (n % 10)]) heq
      · intro h
        have := (hzero h).1
        omega
      · intro c hc
        rcases List.mem_append.1 hc with hc | hc
        · exact ht c hc
        · rw [List.mem_singleton.1 hc]
          exact isDigit_digit (by omega)

/-! ## Integers -/

theorem int64?_ofNat (hn : n < 0x8000000000000000) :
    int64? (ofNat n) = some (n : Int) := by
  have hdigits := natOfDigits?_ofNat n
  obtain ⟨b, t, heq, hb, -⟩ := exists_ofNat_eq_cons n
  rw [heq] at hdigits ⊢
  have hminus : b ≠ 0x2D := by
    rintro rfl
    cases hb
  have hplus : b ≠ 0x2B := by
    rintro rfl
    cases hb
  unfold int64?
  split
  next h => exact absurd (List.cons.inj h).1 hminus
  next h => exact absurd (List.cons.inj h).1 hplus
  next => simp [hdigits, hn]

/-- An integer of 64 bits is read from its numeral. -/
theorem int64?_ofInt
    {n : Int} (hlow : -2 ^ 63 ≤ n) (hhigh : n < 2 ^ 63) :
    int64? (ofInt n) = some n := by
  cases n with
  | ofNat n =>
    have hsmall : (n : Int) < 2 ^ 63 := hhigh
    exact int64?_ofNat (by omega)
  | negSucc n =>
    have hsmall : n + 1 ≤ 0x8000000000000000 := by omega
    change int64? (0x2D :: ofNat (n + 1)) = _
    simp only [int64?, natOfDigits?_ofNat, Option.bind_some, hsmall, if_true]
    rfl

end Text

end ProtocolCorpus
