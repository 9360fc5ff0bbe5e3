import FlowTally.Proofs.Decimal.Nonzero

/-!
# How much rounding adds

Rounding cuts a significand to its 53 leading bits and adds at most one to them, so it raises what
a number is worth by no more than one part in `2 ^ 52`. A number with a full significand is infinite
only if its power of two is too large, and then it is worth at least `2 ^ 1024`. So a product is
finite if it stays below that bound by as much as rounding adds.
-/

namespace FlowTally

open Float.Model (UnpackedFloat Format)
open Float.Model.UnpackedFloat

/-- By which factor rounding raises a number at most. -/
def roundingFactor : ℚ := 1 + 1 / 2 ^ 52

/-- An unpacked number has a full significand, its power of two is at least a bound, and it is worth
at most another one. -/
inductive WorthAtMost (x : Int) (q : ℚ) : UnpackedFloat → Prop where
  /-- The leading bit is the last one, and neither bound is passed. -/
  | finite {s : Sign} {m : Nat} {e : Int} {hm : 0 < m} (hbits : m.log2 = 52) (hx : x ≤ e)
    (hworth : (m : ℚ) * 2 ^ e ≤ q) : WorthAtMost x q (.finite s m e hm)

variable {m n j : Nat} {e x y : Int} {q r : ℚ} {u v : UnpackedFloat}

/-- Wider bounds hold too. -/
theorem WorthAtMost.mono (h : WorthAtMost x q u) (hxy : y ≤ x) (hqr : q ≤ r) :
    WorthAtMost y r u := by
  cases h with
  | finite hbits hx hworth => exact .finite hbits (hxy.trans hx) (hworth.trans hqr)

/-- A number with a full significand is not infinite. -/
theorem WorthAtMost.isInf_eq_false (h : WorthAtMost x q u) : u.isInf = false := by
  cases h
  rfl

/-- Rounding raises the worth of a long significand by the rounding factor at most. -/
theorem worthAtMost_round (hlow : 2 ^ j ≤ m) (hhigh : m < 2 ^ (j + 1)) (hj : 52 ≤ j)
    (he : -1074 ≤ j + e - 52) (s : Sign) (acc : Accuracy) :
    WorthAtMost (j + e - 52) (m * 2 ^ e * roundingFactor)
      (roundWithAccuracy .binary64 s m e acc) := by
  obtain ⟨n, e', hn, hround, hbits, hleast, -, hcut⟩ := exists_round hlow hhigh hj he s acc
  obtain ⟨k, rfl⟩ := Nat.exists_eq_add_of_le hj
  obtain ⟨i, hi⟩ := Int.eq_ofNat_of_zero_le (sub_nonneg.mpr hleast)
  have hpower : e' = i + (k + e) := by omega
  rw [hi, Int.toNat_natCast, Nat.add_sub_cancel_left] at hcut
  -- The bits that are cut off are worth less than the last one that is left.
  have hraised : n * 2 ^ i * 2 ^ k ≤ m + 2 ^ k := by
    calc n * 2 ^ i * 2 ^ k ≤ (m / 2 ^ k + 1) * 2 ^ k := Nat.mul_le_mul_right _ hcut
      _ = m / 2 ^ k * 2 ^ k + 2 ^ k := by ring
      _ ≤ m + 2 ^ k := Nat.add_le_add_right (Nat.div_mul_le_self _ _) _
  have hlast : (2 : ℚ) ^ k ≤ m * (1 / 2 ^ 52) := by
    have hlow' : ((2 ^ (52 + k) : Nat) : ℚ) ≤ m := Nat.cast_le.mpr hlow
    rw [mul_one_div, le_div_iff₀ (by positivity)]
    push_cast at hlow'
    rwa [pow_add, mul_comm] at hlow'
  have hworth : (n : ℚ) * 2 ^ i * 2 ^ k ≤ m * roundingFactor := by
    have hraised' : ((n * 2 ^ i * 2 ^ k : Nat) : ℚ) ≤ ((m + 2 ^ k : Nat) : ℚ) :=
      Nat.cast_le.mpr hraised
    push_cast at hraised'
    rw [roundingFactor, mul_add, mul_one]
    linarith
  have hsplit : (n : ℚ) * 2 ^ e' = n * 2 ^ i * 2 ^ k * 2 ^ e := by
    rw [hpower, zpow_add₀ (by norm_num), zpow_add₀ (by norm_num), zpow_natCast, zpow_natCast]
    ring
  rw [hround]
  refine .finite hbits hleast ?_
  calc (n : ℚ) * 2 ^ e' = n * 2 ^ i * 2 ^ k * 2 ^ e := hsplit
    _ ≤ m * roundingFactor * 2 ^ e := mul_le_mul_of_nonneg_right hworth (by positivity)
    _ = m * 2 ^ e * roundingFactor := by ring

/-- Packing a number with a full significand and unpacking it loses nothing if it is worth less than
`2 ^ 1024`. -/
theorem WorthAtMost.unpack_pack (h : WorthAtMost x q u) (hx : -1074 ≤ x) (hq : q < 2 ^ 1024) :
    unpack .binary64 (pack .binary64 u) = u := by
  cases h with
  | @finite s m e hm hbits hxe hworth =>
    refine unpack_pack_eq s hm hbits (hx.trans hxe) ?_
    by_contra hlarge
    obtain ⟨hlow, -⟩ := (Nat.log2_eq_iff hm.ne').mp hbits
    have hfull : (2 : ℚ) ^ 52 ≤ m := by exact_mod_cast hlow
    have hmost : (2 : ℚ) ^ 1024 ≤ (m : ℚ) * 2 ^ e := by
      calc (2 : ℚ) ^ 1024 = 2 ^ 52 * 2 ^ 972 := pow_add 2 52 972
        _ = 2 ^ 52 * 2 ^ (972 : ℤ) := by rw [← zpow_natCast (2 : ℚ) 972]; rfl
        _ ≤ (m : ℚ) * 2 ^ e :=
            mul_le_mul hfull (zpow_le_zpow_right₀ one_le_two (by omega)) (by positivity)
              (by positivity)
    exact absurd (hmost.trans hworth) (not_le.mpr hq)

/-- A word other than zero is rounded up by the rounding factor at most. -/
theorem worthAtMost_ofNat (hn : 0 < n) (h : n < 2 ^ 64) :
    WorthAtMost (-52) (n * roundingFactor) (UnpackedFloat.ofNat .binary64 n) := by
  obtain ⟨place, shift, -, hlong, hleast, hmost, hround⟩ := exists_ofNat hn h
  have hworth : ((n * 2 ^ shift : Nat) : ℚ) * 2 ^ (0 - (shift : ℤ)) = n := by
    rw [zero_sub, zpow_neg, zpow_natCast]
    push_cast
    field_simp
  have hrounded := worthAtMost_round (e := 0 - (shift : ℤ)) hleast hmost hlong (by omega) .positive
    .exact
  rw [hworth, ← hround] at hrounded
  exact hrounded.mono (by omega) le_rfl

/-- A product is worth as much as its factors, and rounded up by the rounding factor at most. -/
theorem WorthAtMost.mul (hu : WorthAtMost x q u) (hv : WorthAtMost y r v) (hxy : -1074 ≤ x + y) :
    WorthAtMost (x + y) (q * r * roundingFactor) (mul .binary64 u v) := by
  cases hu with
  | @finite s m e hm hbits hxe hworth =>
    cases hv with
    | @finite t n f hn hbits' hyf hworth' =>
      obtain ⟨hlow, -⟩ := (Nat.log2_eq_iff hm.ne').mp hbits
      have hne : m * n ≠ 0 := (Nat.mul_pos hm hn).ne'
      obtain ⟨hleast, hmost⟩ := (Nat.log2_eq_iff hne).mp rfl
      have hlong : 52 ≤ (m * n).log2 := by
        rw [Nat.le_log2 hne]
        exact hlow.trans (Nat.le_mul_of_pos_right m hn)
      have hproduct : ((m * n : Nat) : ℚ) * 2 ^ (e + f) ≤ q * r := by
        rw [zpow_add₀ (by norm_num)]
        push_cast
        calc (m : ℚ) * n * (2 ^ e * 2 ^ f) = m * 2 ^ e * (n * 2 ^ f) := by ring
          _ ≤ q * r := mul_le_mul hworth hworth' (by positivity) (hworth.trans' (by positivity))
      have hrounded := worthAtMost_round (e := e + f) hleast hmost hlong (by omega) (s * t) .exact
      refine hrounded.mono (by omega) ?_
      exact mul_le_mul_of_nonneg_right hproduct (by rw [roundingFactor]; positivity)

end FlowTally
