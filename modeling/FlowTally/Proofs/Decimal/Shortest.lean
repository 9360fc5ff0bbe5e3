import FlowTally.Decimal.Shortest
import Mathlib.Algebra.Order.Field.Power
import Mathlib.Algebra.Order.Field.Rat
import Mathlib.Tactic.FieldSimp
import Mathlib.Tactic.Linarith
import Mathlib.Tactic.Positivity
import Mathlib.Tactic.Ring

/-!
# Shortest decimals tell magnitudes apart

Whatever grid the shortest decimal of a magnitude comes from, it lies in the interval of
the numbers that round to that magnitude. The intervals of two magnitudes have at most
an end in common, and then only one of them is closed, since the significands of
neighbours differ in parity. So no two magnitudes have one shortest decimal.
-/

namespace FlowTally.Decimal

/-- The number that a decimal stands for. -/
def Scaled.value (s : Scaled) : ℚ := s.digits * 10 ^ s.exponent

/-- A number lies in an interval. -/
structure Interval.Holds (i : Interval) (q : ℚ) : Prop where
  /-- It is not below the lower end. -/
  low_le : i.low * 2 ^ i.unit ≤ q
  /-- It is not above the upper end. -/
  le_high : q ≤ i.high * 2 ^ i.unit
  /-- It is at no end that does not belong to the interval. -/
  of_open : i.closed = false → i.low * 2 ^ i.unit ≠ q ∧ q ≠ i.high * 2 ^ i.unit

/-- A power with an exponent of either sign as a quotient of two others. -/
theorem zpow_eq_div (b : ℚ) (z : ℤ) : b ^ z = b ^ z.toNat / b ^ (-z).toNat := by
  rcases le_total 0 z with hz | hz
  · obtain ⟨n, rfl⟩ := Int.eq_ofNat_of_zero_le hz
    simp
  · obtain ⟨n, hn⟩ := Int.eq_ofNat_of_zero_le (neg_nonneg.mpr hz)
    obtain rfl : z = -n := by omega
    simp

/-- Numerator and denominator of a grid turn units into steps. -/
theorem gridScale_spec (unit place : ℤ) :
    (0 : ℚ) < (gridScale unit place).2 ∧
      ((gridScale unit place).1 : ℚ) * 10 ^ place = 2 ^ unit * (gridScale unit place).2 := by
  simp only [gridScale, Nat.pow_eq]
  push_cast
  constructor
  · positivity
  · rw [zpow_eq_div 10 place, zpow_eq_div 2 unit]
    field_simp

/-- Comparing points of a grid with ends of an interval is comparing numbers. -/
theorem grid_le_iff (unit place : ℤ) (a b : Nat) :
    (a * (gridScale unit place).1 ≤ b * (gridScale unit place).2 ↔
        (a : ℚ) * 2 ^ unit ≤ b * 10 ^ place) ∧
      (b * (gridScale unit place).2 ≤ a * (gridScale unit place).1 ↔
        (b : ℚ) * 10 ^ place ≤ a * 2 ^ unit) := by
  obtain ⟨hden, hscale⟩ := gridScale_spec unit place
  have hten : (0 : ℚ) < 10 ^ place := by positivity
  generalize (gridScale unit place).1 = num at hscale ⊢
  generalize (gridScale unit place).2 = den at hden hscale ⊢
  have hleft : (a : ℚ) * num * 10 ^ place = a * 2 ^ unit * den := by
    rw [mul_assoc, hscale, mul_assoc]
  have hright : (b : ℚ) * den * 10 ^ place = b * 10 ^ place * den := by ring
  constructor
  · rw [← mul_le_mul_iff_left₀ hden, ← hleft, ← hright, mul_le_mul_iff_left₀ hten]
    exact_mod_cast Iff.rfl
  · rw [← mul_le_mul_iff_left₀ hden, ← hleft, ← hright, mul_le_mul_iff_left₀ hten]
    exact_mod_cast Iff.rfl

/-- A grid point that is found in an interval lies in it. -/
theorem Interval.holds_of_contains {i : Interval} {place : ℤ} {point : Nat}
    (h : i.contains place point = true) : i.Holds (point * 10 ^ place) := by
  obtain ⟨hlow, hlow'⟩ := grid_le_iff i.unit place i.low point
  obtain ⟨hhigh', hhigh⟩ := grid_le_iff i.unit place i.high point
  unfold contains at h
  cases hclosed : i.closed with
  | true =>
    simp only [hclosed, if_true, Bool.and_eq_true, decide_eq_true_eq] at h
    exact ⟨hlow.mp h.1, hhigh.mp h.2, fun hopen => by simp [hclosed] at hopen⟩
  | false =>
    simp only [hclosed, Bool.false_eq_true, if_false, Bool.and_eq_true, decide_eq_true_eq] at h
    have hlt := not_le.mp (mt hlow'.mpr (not_le.mpr h.1))
    have hgt := not_le.mp (mt hhigh'.mpr (not_le.mpr h.2))
    exact ⟨hlt.le, hgt.le, fun _ => ⟨hlt.ne, hgt.ne⟩⟩

/-- Whatever is picked from a grid lies in the interval. -/
theorem Interval.holds_of_pick? {tie : Tie} {i : Interval} {place : ℤ} {s : Scaled}
    (h : i.pick? tie place = some s) : i.Holds s.value := by
  have hpoint : ∃ point, i.contains place point = true ∧ s = ⟨point, place⟩ := by
    unfold pick? at h
    simp only at h
    generalize i.value * (gridScale i.unit place).1 / (gridScale i.unit place).2 = below at h
    cases hbelow : i.contains place below with
    | false =>
      cases habove : i.contains place (below + 1) with
      | false => simp [hbelow, habove] at h
      | true => exact ⟨below + 1, habove, by simpa [hbelow, habove] using h.symm⟩
    | true =>
      cases habove : i.contains place (below + 1) with
      | false => exact ⟨below, hbelow, by simpa [hbelow, habove] using h.symm⟩
      | true =>
        -- Both points read back: whichever the tie rule takes, it is one of them.
        have heither : some s = some ⟨below, place⟩ ∨ some s = some ⟨below + 1, place⟩ := by
          simp only [hbelow, habove] at h
          rw [← h]
          repeat' split
          all_goals simp
        rcases heither with hs | hs
        · exact ⟨below, hbelow, Option.some.inj hs⟩
        · exact ⟨below + 1, habove, Option.some.inj hs⟩
  obtain ⟨point, hcontains, rfl⟩ := hpoint
  exact holds_of_contains hcontains

/-- The number that a finite magnitude stands for. -/
def magnitude (x : Binary64) : ℚ := x.significand * 2 ^ ((x.power : ℤ) - 1074)

/-- A positive magnitude lies inside its own interval. -/
theorem holds_magnitude {x : Binary64} (hx : 0 < x.significand) :
    (interval x).Holds (magnitude x) := by
  have hunit : magnitude x = ((4 * x.significand : Nat) : ℚ) * 2 ^ (interval x).unit := by
    have hpower : (x.power : ℤ) - 1074 = (x.power : ℤ) - 1076 + 2 := by ring
    rw [magnitude, interval, hpower, zpow_add₀ (by norm_num)]
    push_cast
    ring
  have hlow : (interval x).low < 4 * x.significand := by
    simp only [interval]
    split <;> omega
  have hhigh : 4 * x.significand < (interval x).high := by
    simp only [interval]
    omega
  have hpos : (0 : ℚ) < 2 ^ (interval x).unit := by positivity
  have hlt : ((interval x).low : ℚ) * 2 ^ (interval x).unit < magnitude x := by
    rw [hunit, mul_lt_mul_iff_left₀ hpos]
    exact_mod_cast hlow
  have hgt : magnitude x < (interval x).high * 2 ^ (interval x).unit := by
    rw [hunit, mul_lt_mul_iff_left₀ hpos]
    exact_mod_cast hhigh
  exact ⟨hlt.le, hgt.le, fun _ => ⟨hlt.ne, hgt.ne⟩⟩

/-- All digits of a magnitude are worth that magnitude. -/
theorem value_exactDigits (x : Binary64) : (exactDigits x).value = magnitude x := by
  unfold exactDigits
  split
  · next hpower =>
    obtain ⟨k, hk⟩ := Nat.exists_eq_add_of_le hpower
    have hexponent : (x.power : ℤ) - 1074 = (k : ℤ) := by omega
    have hk' : x.power - 1074 = k := by omega
    simp only [Scaled.value, magnitude, Nat.pow_eq, hexponent, hk', zpow_natCast, zpow_zero]
    push_cast
    ring
  · next hpower =>
    obtain ⟨k, hk⟩ := Nat.exists_eq_add_of_le (Nat.le_of_lt (not_le.mp hpower))
    have hexponent : (x.power : ℤ) - 1074 = -(k : ℤ) := by omega
    have hk' : 1074 - x.power = k := by omega
    have hten : (10 : ℚ) ^ k = 5 ^ k * 2 ^ k := by
      rw [← mul_pow]
      norm_num
    simp only [Scaled.value, magnitude, Nat.pow_eq, hexponent, hk', zpow_neg, zpow_natCast, hten]
    push_cast
    field_simp

/-- Moving zeros into the exponent keeps the value. -/
theorem value_normalize (s : Scaled) : s.normalize.value = s.value := by
  induction s using Scaled.normalize.induct with
  | case1 s h ih =>
    rw [Scaled.normalize, dif_pos h, ih]
    have hdigits : ((s.digits / 10 : Nat) : ℚ) * 10 = s.digits := by
      have hexact : s.digits / 10 * 10 = s.digits := by omega
      exact_mod_cast hexact
    rw [Scaled.value, Scaled.value, zpow_add₀ (by norm_num), zpow_one, ← hdigits]
    ring
  | case2 s h => rw [Scaled.normalize, dif_neg h]

/-- The shortest decimal of a positive magnitude lies in its interval. -/
theorem holds_shortest (tie : Tie) {x : Binary64} (hx : 0 < x.significand) :
    (interval x).Holds (shortest tie x).value := by
  unfold shortest
  rw [value_normalize]
  cases hgrid : ((List.range 17).map fun (n : Nat) =>
      leadingPlace x - (n : Int)).findSome? ((interval x).pick? tie) with
  | none =>
    rw [Option.getD_none, value_exactDigits]
    exact holds_magnitude hx
  | some s =>
    rw [Option.getD_some]
    obtain ⟨place, -, hpick⟩ := List.exists_of_findSome?_eq_some hgrid
    exact Interval.holds_of_pick? hpick

/-- The upper end of a magnitude is below the lower end of every larger one, or is that end
while only one of the two significands is even. -/
theorem high_le_low {x y : Binary64} (h : x.magnitudeBits < y.magnitudeBits) :
    (interval x).high * 2 ^ x.power < (interval y).low * 2 ^ y.power ∨
      (interval x).high * 2 ^ x.power = (interval y).low * 2 ^ y.power ∧
        x.significand % 2 ≠ y.significand % 2 := by
  have hhigh : (interval x).high = 4 * x.significand + 2 := rfl
  have hlow : (interval y).low = 4 * y.significand - 2 ∧
        ¬(y.significand = 0x10000000000000 ∧ 0 < y.power) ∨
      (interval y).low = 4 * y.significand - 1 ∧ y.significand = 0x10000000000000 ∧
        0 < y.power := by
    simp only [interval]
    split
    · next hgap => exact .inr ⟨rfl, hgap⟩
    · next hgap => exact .inl ⟨rfl, hgap⟩
  have hx : x.magnitudeBits < 0x10000000000000 ∧ x.power = 0 ∧
      x.significand = x.magnitudeBits ∨
      x.magnitudeBits = (x.power + 1) * 0x10000000000000 + (x.significand - 0x10000000000000) ∧
        0x10000000000000 ≤ x.significand ∧ x.significand < 0x20000000000000 := by
    unfold Binary64.power Binary64.significand
    split <;> omega
  have hy : y.magnitudeBits < 0x10000000000000 ∧ y.power = 0 ∧
      y.significand = y.magnitudeBits ∨
      y.magnitudeBits = (y.power + 1) * 0x10000000000000 + (y.significand - 0x10000000000000) ∧
        0x10000000000000 ≤ y.significand ∧ y.significand < 0x20000000000000 := by
    unfold Binary64.power Binary64.significand
    split <;> omega
  generalize (interval x).high = high at *
  generalize (interval y).low = low at *
  by_cases hpower : x.power = y.power
  · -- Steps of one length: the larger significand is one above or farther.
    rw [hpower] at hx ⊢
    have hpos : 0 < 2 ^ y.power := Nat.two_pow_pos _
    by_cases hnext : y.significand = x.significand + 1
    · have hends : high = low := by omega
      exact .inr ⟨by rw [hends], by omega⟩
    · have hends : high < low := by omega
      exact .inl (Nat.mul_lt_mul_of_pos_right hends hpos)
  · -- The steps of the larger magnitude are at least twice as long.
    have hgrow : 2 * 2 ^ x.power ≤ 2 ^ y.power := by
      rw [← Nat.pow_succ']
      exact Nat.pow_le_pow_right (by omega) (by omega)
    have hends : high ≤ low * 2 := by omega
    have hle : high * 2 ^ x.power ≤ low * 2 ^ y.power := by
      calc high * 2 ^ x.power ≤ low * 2 * 2 ^ x.power := Nat.mul_le_mul_right _ hends
        _ = low * (2 * 2 ^ x.power) := Nat.mul_assoc _ _ _
        _ ≤ low * 2 ^ y.power := Nat.mul_le_mul_left _ hgrow
    rcases Nat.lt_or_eq_of_le hle with hlt | heq
    · exact .inl hlt
    · refine .inr ⟨heq, fun hparity => ?_⟩
      have hstrict : high < low * 2 := by omega
      have hpos : 0 < 2 ^ x.power := Nat.two_pow_pos _
      have hlt : high * 2 ^ x.power < low * 2 ^ y.power := by
        calc high * 2 ^ x.power < low * 2 * 2 ^ x.power :=
              Nat.mul_lt_mul_of_pos_right hstrict hpos
          _ = low * (2 * 2 ^ x.power) := Nat.mul_assoc _ _ _
          _ ≤ low * 2 ^ y.power := Nat.mul_le_mul_left _ hgrow
      omega

/-- The end of an interval in units that all intervals share. -/
theorem end_eq (x : Binary64) (n : Nat) :
    (n : ℚ) * 2 ^ (interval x).unit = ((n * 2 ^ x.power : Nat) : ℚ) * 2 ^ (-1076 : ℤ) := by
  have hunit : (interval x).unit = (x.power : ℤ) + -1076 := rfl
  rw [hunit, zpow_add₀ (by norm_num), zpow_natCast, Nat.cast_mul, Nat.cast_pow, Nat.cast_ofNat,
    mul_assoc]

/-- No number lies in the intervals of two different magnitudes. -/
theorem not_holds_of_lt {x y : Binary64} (h : x.magnitudeBits < y.magnitudeBits) {q : ℚ}
    (hx : (interval x).Holds q) : ¬(interval y).Holds q := by
  intro hy
  have hpos : (0 : ℚ) < 2 ^ (-1076 : ℤ) := by positivity
  have hhigh := hx.le_high
  have hlow := hy.low_le
  rw [end_eq] at hhigh hlow
  have hle := le_of_mul_le_mul_right (hlow.trans hhigh) hpos
  rw [Nat.cast_le] at hle
  rcases high_le_low h with hlt | ⟨heq, hparity⟩
  · omega
  · -- The number is the common end, and one of the two intervals is open there.
    rw [← heq] at hlow
    have hend : q = (interval x).high * 2 ^ (interval x).unit := by
      rw [end_eq]
      exact le_antisymm hhigh hlow
    have hend' : (interval y).low * 2 ^ (interval y).unit = q := by
      rw [hend, end_eq, end_eq, heq]
    by_cases heven : x.significand % 2 = 0
    · have hopen : (interval y).closed = false := decide_eq_false (by omega)
      exact (hy.of_open hopen).1 hend'
    · have hopen : (interval x).closed = false := decide_eq_false heven
      exact (hx.of_open hopen).2 hend

/-- A number tells the magnitude in whose interval it lies. -/
theorem magnitudeBits_eq_of_holds {x y : Binary64} {q : ℚ} (hx : (interval x).Holds q)
    (hy : (interval y).Holds q) : x.magnitudeBits = y.magnitudeBits := by
  rcases Nat.lt_trichotomy x.magnitudeBits y.magnitudeBits with hlt | heq | hgt
  · exact absurd hy (not_holds_of_lt hlt hx)
  · exact heq
  · exact absurd hx (not_holds_of_lt hgt hy)

end FlowTally.Decimal
