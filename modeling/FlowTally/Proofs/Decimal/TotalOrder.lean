import FlowTally.Proofs.Decimal.PlainText

/-!
# The total order of floating-point numbers

The total order of the format puts every word in its place: the NaNs with a sign in front, then
negative infinity, the finite numbers by what they stand for, infinity, and the other NaNs. The
negative zero stands in front of the positive one, and NaNs of one sign are told apart by their
fractions. It is the order of the words as numbers with sign and magnitude.
-/

namespace FlowTally

namespace Decimal

variable {x y : Binary64}

/-- A magnitude is not negative. -/
theorem magnitude_nonneg (x : Binary64) : 0 ≤ magnitude x := by
  unfold magnitude
  positivity

/-- A magnitude that is not zero is positive. -/
theorem magnitude_pos (h : x.isZero = false) : 0 < magnitude x := by
  have hpos := Binary64.significand_pos h
  unfold magnitude
  positivity

/-- Zero stands for zero. -/
theorem magnitude_of_isZero (h : x.isZero = true) : magnitude x = 0 := by
  have hbits : x.magnitudeBits = 0 := beq_iff_eq.mp h
  simp [magnitude, Binary64.significand, hbits]

/-- Larger words stand for larger magnitudes. -/
theorem magnitude_lt_of_lt (h : x.magnitudeBits < y.magnitudeBits) :
    magnitude x < magnitude y := by
  have hy : y.isZero = false := beq_eq_false_iff_ne.mpr (by omega)
  cases hx : x.isZero with
  | true =>
    rw [magnitude_of_isZero hx]
    exact magnitude_pos hy
  | false =>
    have hxholds := holds_magnitude (Binary64.significand_pos hx)
    have hyholds := holds_magnitude (Binary64.significand_pos hy)
    have hends : (interval x).high * 2 ^ x.power ≤ (interval y).low * 2 ^ y.power := by
      rcases high_le_low h with hlt | ⟨heq, -⟩
      · exact hlt.le
      · exact heq.le
    have hle : magnitude x ≤ magnitude y := by
      calc magnitude x ≤ (interval x).high * 2 ^ (interval x).unit := hxholds.le_high
        _ ≤ (interval y).low * 2 ^ (interval y).unit := by
          rw [end_eq, end_eq]
          exact mul_le_mul_of_nonneg_right (Nat.cast_le.mpr hends) (by positivity)
        _ ≤ magnitude y := hyholds.low_le
    -- One number cannot lie in both intervals.
    exact lt_of_le_of_ne hle fun heq => not_holds_of_lt h hxholds (heq ▸ hyholds)

/-- Magnitudes are ordered as their words. -/
theorem magnitude_lt_iff : magnitude x < magnitude y ↔ x.magnitudeBits < y.magnitudeBits := by
  refine ⟨fun h => ?_, magnitude_lt_of_lt⟩
  rcases Nat.lt_trichotomy x.magnitudeBits y.magnitudeBits with hlt | heq | hgt
  · exact hlt
  · have hsame : magnitude x = magnitude y := by
      simp only [magnitude, Binary64.significand, Binary64.power, heq]
    exact absurd h hsame.not_lt
  · exact absurd h (magnitude_lt_of_lt hgt).not_gt

end Decimal

namespace Binary64

/-- The number that a finite word stands for. -/
def value (x : Binary64) : ℚ :=
  if x.isNegative then -Decimal.magnitude x else Decimal.magnitude x

/-- The place of the class of a word: from the NaNs with a sign through negative infinity, the
finite numbers and infinity to the NaNs without a sign. -/
def classPlace (x : Binary64) : Int :=
  if x.isNaN then if x.isNegative then -2 else 2
  else if x.isInfinite then if x.isNegative then -1 else 1
  else 0

/-- The fraction of a word. That of a NaN starts with the bit that is set in the quiet ones, and
the payload follows. -/
def fraction (x : Binary64) : Nat := x.magnitudeBits % 0x10000000000000

/-- Which of two words stands in front of the other in the total order of the format. -/
inductive Precedes (x y : Binary64) : Prop where
  /-- Words of different classes stand in the order of the classes. -/
  | classes (h : x.classPlace < y.classPlace)
  /-- Finite numbers stand in the order of what they stand for. -/
  | numbers (hx : x.isFinite = true) (hy : y.isFinite = true) (h : x.value < y.value)
  /-- The negative zero stands in front of the positive one. -/
  | zeros (hx : x.isZero = true) (hy : y.isZero = true) (hneg : x.isNegative = true)
      (hpos : y.isNegative = false)
  /-- Without a sign the signalling NaNs stand in front of the quiet ones, and then the smaller
  payload in front of the larger. -/
  | positiveNaNs (hx : x.isNaN = true) (hy : y.isNaN = true) (hxpos : x.isNegative = false)
      (hypos : y.isNegative = false) (h : x.fraction < y.fraction)
  /-- With a sign it is the other way round. -/
  | negativeNaNs (hx : x.isNaN = true) (hy : y.isNaN = true) (hxneg : x.isNegative = true)
      (hyneg : y.isNegative = true) (h : y.fraction < x.fraction)

variable {x y : Binary64}

/-- Words with a sign stand below zero, the larger magnitude in front. -/
theorem orderKey_of_negative (h : x.isNegative = true) :
    x.orderKey = -(x.magnitudeBits : Int) - 1 := if_pos h

/-- Words without a sign stand from zero on, the smaller magnitude in front. -/
theorem orderKey_of_positive (h : x.isNegative = false) : x.orderKey = x.magnitudeBits :=
  if_neg (by simp [h])

/-- A word stands in front of another if only it has a sign, or by its magnitude. -/
theorem orderKey_lt_iff : x.orderKey < y.orderKey ↔
    x.isNegative = true ∧ y.isNegative = false ∨
    x.isNegative = true ∧ y.isNegative = true ∧ y.magnitudeBits < x.magnitudeBits ∨
    x.isNegative = false ∧ y.isNegative = false ∧ x.magnitudeBits < y.magnitudeBits := by
  constructor
  · intro h
    cases hx : x.isNegative with
    | true =>
      cases hy : y.isNegative with
      | true =>
        rw [orderKey_of_negative hx, orderKey_of_negative hy] at h
        exact .inr (.inl ⟨rfl, rfl, by omega⟩)
      | false => exact .inl ⟨rfl, rfl⟩
    | false =>
      rw [orderKey_of_positive hx] at h
      cases hy : y.isNegative with
      | true =>
        rw [orderKey_of_negative hy] at h
        omega
      | false =>
        rw [orderKey_of_positive hy] at h
        exact .inr (.inr ⟨rfl, rfl, by omega⟩)
  · rintro (⟨hx, hy⟩ | ⟨hx, hy, h⟩ | ⟨hx, hy, h⟩)
    · rw [orderKey_of_negative hx, orderKey_of_positive hy]
      omega
    · rw [orderKey_of_negative hx, orderKey_of_negative hy]
      omega
    · rw [orderKey_of_positive hx, orderKey_of_positive hy]
      omega

/-- The words of a class stand side by side. -/
theorem classPlace_spec (x : Binary64) :
    x.classPlace = -2 ∧ x.isNaN = true ∧ x.isNegative = true ∧ x.orderKey < -infinityBits - 1 ∨
    x.classPlace = -1 ∧ x.orderKey = -infinityBits - 1 ∨
    x.classPlace = 0 ∧ x.isFinite = true ∧ -infinityBits - 1 < x.orderKey ∧
      x.orderKey < infinityBits ∨
    x.classPlace = 1 ∧ x.orderKey = infinityBits ∨
    x.classPlace = 2 ∧ x.isNaN = true ∧ x.isNegative = false ∧ infinityBits < x.orderKey := by
  rcases Nat.lt_trichotomy x.magnitudeBits infinityBits with h | h | h
  · have hnan : x.isNaN = false := decide_eq_false h.not_gt
    have hinfinite : x.isInfinite = false := beq_eq_false_iff_ne.mpr h.ne
    refine .inr (.inr (.inl ⟨by simp [classPlace, hnan, hinfinite], decide_eq_true h, ?_⟩))
    unfold orderKey
    split <;> omega
  · have hnan : x.isNaN = false := decide_eq_false h.not_gt
    have hinfinite : x.isInfinite = true := beq_iff_eq.mpr h
    cases hsign : x.isNegative with
    | true =>
      refine .inr (.inl ⟨by simp [classPlace, hnan, hinfinite, hsign], ?_⟩)
      rw [orderKey_of_negative hsign, h]
    | false =>
      refine .inr (.inr (.inr (.inl ⟨by simp [classPlace, hnan, hinfinite, hsign], ?_⟩)))
      rw [orderKey_of_positive hsign, h]
  · have hnan : x.isNaN = true := decide_eq_true h
    cases hsign : x.isNegative with
    | true =>
      refine .inl ⟨by simp [classPlace, hnan, hsign], hnan, rfl, ?_⟩
      rw [orderKey_of_negative hsign]
      omega
    | false =>
      refine .inr (.inr (.inr (.inr ⟨by simp [classPlace, hnan, hsign], hnan, rfl, ?_⟩)))
      rw [orderKey_of_positive hsign]
      omega

/-- Words of one class are finite, or NaNs of one sign, or they are one infinity. -/
theorem class_cases (h : x.classPlace = y.classPlace) :
    x.isFinite = true ∧ y.isFinite = true ∨
    x.isNaN = true ∧ y.isNaN = true ∧ x.isNegative = y.isNegative ∨ x.orderKey = y.orderKey := by
  rcases x.classPlace_spec with ⟨hx, hxnan, hxsign, -⟩ | ⟨hx, hxkey⟩ | ⟨hx, hxfinite, -⟩ |
    ⟨hx, hxkey⟩ | ⟨hx, hxnan, hxsign, -⟩ <;>
  rcases y.classPlace_spec with ⟨hy, hynan, hysign, -⟩ | ⟨hy, hykey⟩ | ⟨hy, hyfinite, -⟩ |
    ⟨hy, hykey⟩ | ⟨hy, hynan, hysign, -⟩ <;>
  first
    | omega
    | exact .inl ⟨hxfinite, hyfinite⟩
    | exact .inr (.inl ⟨hxnan, hynan, hxsign.trans hysign.symm⟩)

/-- NaNs have their fractions in the order of their magnitudes. -/
theorem fraction_lt_iff (hx : x.isNaN = true) (hy : y.isNaN = true) :
    x.fraction < y.fraction ↔ x.magnitudeBits < y.magnitudeBits := by
  have hxabove : 0x7ff0000000000000 < x.magnitudeBits := of_decide_eq_true hx
  have hyabove : 0x7ff0000000000000 < y.magnitudeBits := of_decide_eq_true hy
  have hxbelow : x.magnitudeBits < 0x8000000000000000 := Nat.mod_lt _ (by decide)
  have hybelow : y.magnitudeBits < 0x8000000000000000 := Nat.mod_lt _ (by decide)
  unfold fraction
  omega

/-- What stands for less stands in front. -/
theorem orderKey_lt_of_value_lt (h : x.value < y.value) : x.orderKey < y.orderKey := by
  have hx := Decimal.magnitude_nonneg x
  have hy := Decimal.magnitude_nonneg y
  unfold value at h
  rw [orderKey_lt_iff]
  cases hxneg : x.isNegative <;> cases hyneg : y.isNegative <;>
    simp only [hxneg, hyneg, if_true, Bool.false_eq_true, if_false] at h
  · exact .inr (.inr ⟨rfl, rfl, Decimal.magnitude_lt_iff.mp h⟩)
  · linarith
  · exact .inl ⟨rfl, rfl⟩
  · exact .inr (.inl ⟨rfl, rfl, Decimal.magnitude_lt_iff.mp (neg_lt_neg_iff.mp h)⟩)

/-- What stands in front stands for less, or the two words are the zeros. -/
theorem value_lt_of_orderKey_lt (h : x.orderKey < y.orderKey) :
    x.value < y.value ∨
      x.isZero = true ∧ y.isZero = true ∧ x.isNegative = true ∧ y.isNegative = false := by
  unfold value
  rcases orderKey_lt_iff.mp h with ⟨hx, hy⟩ | ⟨hx, hy, hlt⟩ | ⟨hx, hy, hlt⟩
  · rw [hx, hy, if_pos rfl, if_neg Bool.false_ne_true]
    have hxnonneg := Decimal.magnitude_nonneg x
    have hynonneg := Decimal.magnitude_nonneg y
    cases hxzero : x.isZero with
    | false =>
      have hxpos := Decimal.magnitude_pos hxzero
      exact .inl (by linarith)
    | true =>
      cases hyzero : y.isZero with
      | false =>
        have hypos := Decimal.magnitude_pos hyzero
        exact .inl (by linarith)
      | true => exact .inr ⟨rfl, rfl, rfl, rfl⟩
  · rw [hx, hy, if_pos rfl, if_pos rfl]
    exact .inl (neg_lt_neg (Decimal.magnitude_lt_of_lt hlt))
  · rw [hx, hy, if_neg Bool.false_ne_true, if_neg Bool.false_ne_true]
    exact .inl (Decimal.magnitude_lt_of_lt hlt)

/-- The order of the words is the total order of the format. -/
theorem orderKey_lt_iff_precedes : x.orderKey < y.orderKey ↔ x.Precedes y := by
  have hclasses : x.orderKey < y.orderKey → x.classPlace ≤ y.classPlace := by
    have hx := x.classPlace_spec
    have hy := y.classPlace_spec
    omega
  constructor
  · intro h
    rcases lt_or_eq_of_le (hclasses h) with hclass | hclass
    · exact .classes hclass
    rcases class_cases hclass with ⟨hx, hy⟩ | ⟨hx, hy, hsign⟩ | heq
    · rcases value_lt_of_orderKey_lt h with hlt | ⟨hxzero, hyzero, hneg, hpos⟩
      · exact .numbers hx hy hlt
      · exact .zeros hxzero hyzero hneg hpos
    · rcases orderKey_lt_iff.mp h with ⟨hneg, hpos⟩ | ⟨hxneg, hyneg, hlt⟩ | ⟨hxpos, hypos, hlt⟩
      · exact nomatch hneg.symm.trans (hsign.trans hpos)
      · exact .negativeNaNs hx hy hxneg hyneg ((fraction_lt_iff hy hx).mpr hlt)
      · exact .positiveNaNs hx hy hxpos hypos ((fraction_lt_iff hx hy).mpr hlt)
    · omega
  · rintro (h | ⟨-, -, h⟩ | ⟨-, -, hneg, hpos⟩ | ⟨hx, hy, hxpos, hypos, h⟩ |
      ⟨hx, hy, hxneg, hyneg, h⟩)
    · have hx := x.classPlace_spec
      have hy := y.classPlace_spec
      omega
    · exact orderKey_lt_of_value_lt h
    · exact orderKey_lt_iff.mpr (.inl ⟨hneg, hpos⟩)
    · have hlt := (fraction_lt_iff hx hy).mp h
      exact orderKey_lt_iff.mpr (.inr (.inr ⟨hxpos, hypos, hlt⟩))
    · have hlt := (fraction_lt_iff hy hx).mp h
      exact orderKey_lt_iff.mpr (.inr (.inl ⟨hxneg, hyneg, hlt⟩))

/-- The comparison of words is that of the total order of the format. -/
theorem totalCompare_eq_lt_iff : x.totalCompare y = .lt ↔ x.Precedes y := by
  rw [totalCompare, Int.compare_eq_lt, orderKey_lt_iff_precedes]

end Binary64

end FlowTally
