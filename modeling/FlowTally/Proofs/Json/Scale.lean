import FlowTally.Json.Number
import FlowTally.Proofs.Decimal.Rounding

/-!
# Words that are scaled by powers of ten

A word times a power of ten is found by one multiplication of two rounded numbers, so it can be
out of range though the exact product is not. It is not if the exact product stays below `2 ^ 1024`
by as much as three roundings add: that of the word, that of the power and that of the product. Short
powers of ten stand in a table; a longer one is rounded once. Division is never out of range.
-/

namespace FlowTally.Json

open Float.Model (UnpackedFloat)
open Float.Model.UnpackedFloat

/-- An unpacked number has a full significand and is worth no more than a power of ten that is
rounded up by one part in `2 ^ 52`. -/
def NearPower (k : Nat) : UnpackedFloat → Prop
  | .finite _ m e _ =>
    m.log2 = 52 ∧ -52 ≤ e ∧ m * 2 ^ (e + 52).toNat ≤ 10 ^ k * (2 ^ 52 + 1)
  | _ => False

instance (k : Nat) : DecidablePred (NearPower k) := fun u =>
  match u with
  | .finite _ m e _ => inferInstanceAs
      (Decidable (m.log2 = 52 ∧ -52 ≤ e ∧ m * 2 ^ (e + 52).toNat ≤ 10 ^ k * (2 ^ 52 + 1)))
  | .zero _ => isFalse id
  | .infinity _ => isFalse id
  | .notANumber => isFalse id

/-- The tabled powers of ten are near the powers of ten. -/
theorem nearPower_powerOfTen : ∀ k < 23, NearPower k (powerOfTen k).toModel.unpack := by
  decide +kernel

/-- A number near a power of ten is worth that power, rounded up by the rounding factor at most. -/
theorem NearPower.worthAtMost {k : Nat} {u : UnpackedFloat} (h : NearPower k u) :
    WorthAtMost (-52) (10 ^ k * roundingFactor) u := by
  cases u with
  | finite s m e hm =>
    obtain ⟨hbits, hleast, hnear⟩ := h
    obtain ⟨i, hi⟩ := Int.eq_ofNat_of_zero_le (show 0 ≤ e + 52 by omega)
    rw [hi, Int.toNat_natCast] at hnear
    refine .finite hbits hleast ?_
    have hpower : (2 : ℚ) ^ e = 2 ^ i / 2 ^ 52 := by
      rw [show e = (i : ℤ) - (52 : ℕ) by omega, zpow_sub₀ (by norm_num), zpow_natCast, zpow_natCast]
    have hnear' : ((m * 2 ^ i : Nat) : ℚ) ≤ ((10 ^ k * (2 ^ 52 + 1) : Nat) : ℚ) :=
      Nat.cast_le.mpr hnear
    push_cast at hnear'
    rw [hpower, roundingFactor, ← mul_div_assoc, div_le_iff₀ (by positivity)]
    linarith
  | _ => exact h.elim

/-- A power of ten that is in no table is rounded once. -/
theorem unpack_powerOfTen {k : Nat} (hk : 22 < k) (hk' : k < 309) :
    (powerOfTen k).toModel.unpack = unpack .binary64 (pack .binary64
      (roundWithAccuracy .binary64 .positive (2 ^ 53 * 10 ^ k) (-53) .exact)) := by
  have hscientific : Float.Model.UnpackedFloat.ofScientific .binary64 1 k =
      roundWithAccuracy .binary64 .positive (2 ^ 53 * 10 ^ k) (-53) .exact := by
    have hlarge : ¬(k : Int) > 2 ^ Float.Model.Format.binary64.exponentBits := by
      rw [show Float.Model.Format.binary64.exponentBits = 11 from rfl]
      omega
    rw [UnpackedFloat.ofScientific, dif_neg one_ne_zero, if_neg hlarge, if_neg (by omega),
      if_pos (by omega)]
    rfl
  rw [powerOfTen, Float.ofScientific, dif_neg (by omega)]
  exact congrArg (fun u => unpack .binary64 (pack .binary64 u)) hscientific

/-- The numbers nearest to powers of ten are worth as much, rounded up by the rounding factor at
most. -/
theorem worthAtMost_powerOfTen {k : Nat} (hk : k < 309) :
    WorthAtMost (-52) (10 ^ k * roundingFactor) (powerOfTen k).toModel.unpack := by
  by_cases hshort : k < 23
  · exact (nearPower_powerOfTen k hshort).worthAtMost
  · have hne : 2 ^ 53 * 10 ^ k ≠ 0 := by positivity
    obtain ⟨hlow, hhigh⟩ := (Nat.log2_eq_iff hne).mp rfl
    have hlong : 53 ≤ (2 ^ 53 * 10 ^ k).log2 := by
      rw [Nat.le_log2 hne]
      exact Nat.le_mul_of_pos_right _ (by positivity)
    have hrounded := worthAtMost_round (e := -53) hlow hhigh (by omega) (by omega)
      .positive .exact
    have hworth : ((2 ^ 53 * 10 ^ k : Nat) : ℚ) * 2 ^ (-53 : ℤ) = 10 ^ k := by
      rw [Nat.cast_mul, Nat.cast_pow, Nat.cast_pow, zpow_neg, show (53 : ℤ) = (53 : ℕ) from rfl, zpow_natCast]
      push_cast
      field_simp
    rw [hworth] at hrounded
    have hsmall : (10 : ℚ) ^ k * roundingFactor < 2 ^ 1024 := by
      have hlargest : 10 ^ k * (2 ^ 52 + 1) < 2 ^ 1024 * 2 ^ 52 := by
        calc 10 ^ k * (2 ^ 52 + 1) ≤ 10 ^ 308 * (2 ^ 52 + 1) :=
              Nat.mul_le_mul_right _ (Nat.pow_le_pow_right (by omega) (by omega))
          _ < 2 ^ 1024 * 2 ^ 52 := by decide +kernel
      have hlargest' : (10 : ℚ) ^ k * (2 ^ 52 + 1) < 2 ^ 1024 * 2 ^ 52 := by
        exact_mod_cast hlargest
      rwa [roundingFactor, one_add_div (by positivity), ← mul_div_assoc, div_lt_iff₀ (by positivity)]
    rw [unpack_powerOfTen (by omega) hk, hrounded.unpack_pack (by omega) hsmall]
    exact hrounded.mono (by omega) le_rfl
/-- A word other than zero is worth itself, rounded up by the rounding factor at most. -/
theorem worthAtMost_toFloat {n : UInt64} (h : n ≠ 0) :
    WorthAtMost (-52) (n.toNat * roundingFactor) n.toFloat.toModel.unpack := by
  have hpos : 0 < n.toNat := Nat.pos_of_ne_zero fun hzero => h (UInt64.toNat_inj.mp hzero)
  have hword := worthAtMost_ofNat hpos n.toNat_lt
  have hsmall : (n.toNat : ℚ) * roundingFactor < 2 ^ 1024 := by
    have hlt : (n.toNat : ℚ) < 2 ^ 64 := by exact_mod_cast n.toNat_lt
    calc (n.toNat : ℚ) * roundingFactor < 2 ^ 64 * 2 :=
          mul_lt_mul'' hlt (by norm_num [roundingFactor]) (by positivity)
            (by norm_num [roundingFactor])
      _ = 2 ^ 65 := (pow_succ 2 64).symm
      _ ≤ 2 ^ 1024 := pow_le_pow_right₀ one_le_two (by omega)
  change WorthAtMost _ _ (unpack .binary64 (pack .binary64 (UnpackedFloat.ofNat .binary64 n.toNat)))
  rwa [hword.unpack_pack (by omega) hsmall]

/-- The product of a word and a power of ten is not infinite if the exact product leaves room
for three roundings. -/
theorem isInf_product {n : UInt64} {k : Nat} (hk : k < 309)
    (h : n.toNat * 10 ^ k * roundingFactor ^ 3 < 2 ^ 1024) :
    (n.toFloat * powerOfTen k).isInf = false := by
  have hpower := worthAtMost_powerOfTen hk
  change (unpack .binary64 (pack .binary64
    (mul .binary64 n.toFloat.toModel.unpack (powerOfTen k).toModel.unpack))).isInf = false
  by_cases hn : n = 0
  · have hzero : (0 : UInt64).toFloat.toModel.unpack = .zero .positive := rfl
    rw [hn, hzero]
    generalize (powerOfTen k).toModel.unpack = power at hpower
    cases hpower with
    | @finite s m e hm =>
      change (unpack .binary64 (packedZero .binary64 (.positive * s))).isInf = false
      rw [unpack_packedZero]
      rfl
  · have hproduct := (worthAtMost_toFloat hn).mul hpower (by omega)
    have hbound : (n.toNat : ℚ) * roundingFactor * (10 ^ k * roundingFactor) * roundingFactor =
        n.toNat * 10 ^ k * roundingFactor ^ 3 := by ring
    rw [hbound] at hproduct
    rw [hproduct.unpack_pack (by omega) h]
    exact hproduct.isInf_eq_false

/-- A word times a power of ten is in range if the exact product leaves room for three roundings. -/
theorem isSome_scale? {n : Nat} {e : Int} (hn : n < UInt64.size)
    (h : (n : ℚ) * 10 ^ e * roundingFactor ^ 3 < 2 ^ 1024) : (scale? n e).isSome = true := by
  have hword : (UInt64.ofNat n).toNat = n := by
    rw [UInt64.toNat_ofNat']
    exact Nat.mod_eq_of_lt hn
  unfold scale?
  dsimp only
  split
  · rfl
  · next hnonneg =>
    obtain ⟨k, rfl⟩ := Int.eq_ofNat_of_zero_le (not_lt.mp hnonneg)
    rw [zpow_natCast] at h
    split
    · next hsmall =>
      rw [Int.toNat_natCast, isInf_product (by omega) (by rwa [hword])]
      rfl
    · next hlarge =>
      have hzero : n = 0 := by
        by_contra hne
        have hone : (1 : ℚ) ≤ n := by exact_mod_cast Nat.pos_of_ne_zero hne
        have hfactor : (1 : ℚ) ≤ roundingFactor ^ 3 := one_le_pow₀ (by norm_num [roundingFactor])
        have hten : 2 ^ 1024 ≤ 10 ^ k := by
          calc 2 ^ 1024 ≤ 10 ^ 309 := by decide +kernel
            _ ≤ 10 ^ k := Nat.pow_le_pow_right (by omega) (by omega)
        have hten' : (2 : ℚ) ^ 1024 ≤ 10 ^ k := by exact_mod_cast hten
        have hle : (10 : ℚ) ^ k ≤ n * 10 ^ k * roundingFactor ^ 3 := by
          calc (10 : ℚ) ^ k = 1 * 10 ^ k * 1 := by ring
            _ ≤ n * 10 ^ k * roundingFactor ^ 3 :=
                mul_le_mul (mul_le_mul_of_nonneg_right hone (by positivity)) hfactor
                  zero_le_one (by positivity)
        exact absurd h (not_lt.mpr (hten'.trans hle))
      rw [if_pos hzero]
      rfl

end FlowTally.Json
