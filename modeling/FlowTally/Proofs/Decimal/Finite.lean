import FlowTally.Decimal.Binary64
import Mathlib

/-!
# Results that do not overflow

A finite number is a significand times a power of two, and it overflows only if that power is
too large. Rounding raises the power by no more than the significand is long. So a word, a quotient
by a divisor that is not too small and a product that is not infinite are finite numbers.
-/

namespace FlowTally

open Float.Model (UnpackedFloat Format totalExponent)
open Float.Model.UnpackedFloat

/-- An unpacked number is finite, and its power of two is at most a bound. -/
inductive PowerAtMost (x : Int) : UnpackedFloat → Prop where
  /-- A zero has no power of two. -/
  | zero (s : Sign) : PowerAtMost x (.zero s)
  /-- The power of two is not above the bound. -/
  | finite {s : Sign} {m : Nat} {e : Int} {hm : 0 < m} (he : e ≤ x) :
    PowerAtMost x (.finite s m e hm)

/-- An unpacked number is finite with a significand of at most 53 bits, and its power of two is at
least a bound. -/
inductive PowerAtLeast (y : Int) : UnpackedFloat → Prop where
  /-- The power of two is not below the bound. -/
  | finite {s : Sign} {m : Nat} {e : Int} {hm : 0 < m} (hbits : m < 2 ^ 53) (he : y ≤ e) :
    PowerAtLeast y (.finite s m e hm)

instance (y : Int) : DecidablePred (PowerAtLeast y) := fun u =>
  match u with
  | .finite _ m e _ =>
    if h : m < 2 ^ 53 ∧ y ≤ e then isTrue (.finite h.1 h.2)
    else isFalse fun | .finite hbits he => h ⟨hbits, he⟩
  | .zero _ => isFalse nofun
  | .infinity _ => isFalse nofun
  | .notANumber => isFalse nofun

/-- A larger bound holds too. -/
theorem PowerAtMost.mono {x y : Int} {u : UnpackedFloat} (h : PowerAtMost x u) (hxy : x ≤ y) :
    PowerAtMost y u := by
  cases h with
  | zero s => exact .zero s
  | finite he => exact .finite (he.trans hxy)

/-- A number whose power of two is at least a bound has some power of two. -/
theorem PowerAtLeast.exists_powerAtMost {y : Int} {u : UnpackedFloat} (h : PowerAtLeast y u) :
    ∃ x, PowerAtMost x u := by
  cases h with
  | finite => exact ⟨_, .finite le_rfl⟩

/-- A number with a bounded power of two is finite. -/
theorem PowerAtMost.isFinite {x : Int} {u : UnpackedFloat} (h : PowerAtMost x u) :
    u.isFinite = true := by
  cases h <;> rfl

/-- The logarithm of a number below a power of two is not above its exponent. -/
theorem log2_le {m k : Nat} (h : m < 2 ^ k) : m.log2 ≤ k := by
  rcases Nat.eq_zero_or_pos m with rfl | hm
  · exact Nat.zero_le k
  · exact ((Nat.log2_lt hm.ne').mpr h).le

/-- Shifting does not raise the significand. -/
theorem mantissa_shiftRight_le (em : ExtendedMantissa) (n : Nat) :
    (em >>> n).mantissa ≤ em.mantissa := by
  change (n.repeat ExtendedMantissa.shiftRightOne em).mantissa ≤ em.mantissa
  induction n with
  | zero => exact Nat.le_refl _
  | succ n ih => exact (Nat.div_le_self _ 2).trans ih

/-- Rounding raises the significand by at most one. -/
theorem roundedMantissa_le (em : ExtendedMantissa) : em.roundedMantissa ≤ em.mantissa + 1 := by
  obtain ⟨m, round, sticky⟩ := em
  cases round <;> cases sticky <;>
    simp only [ExtendedMantissa.roundedMantissa, ExtendedMantissa.accuracy,
      Accuracy.roundToNearestEven] <;> omega

/-- Shifting raises the power of two by no more than the significand is long. -/
theorem shiftToTargetExponent_le {m k : Nat} {e x : Int} (hm : m < 2 ^ k) (he : e ≤ x)
    (hx : -1074 ≤ x) (acc : Accuracy) :
    (shiftToTargetExponent .binary64 m e acc).1.mantissa ≤ m ∧
      (shiftToTargetExponent .binary64 m e acc).2 ≤ x + k := by
  have hlog := log2_le hm
  have htarget : Format.binary64.targetExponent (totalExponent m e) ≤ x + k := by
    simp only [Format.targetExponent, totalExponent, Format.mantissaBits, Format.minExponent]
    omega
  constructor
  · refine (mantissa_shiftRight_le _ _).trans ?_
    cases acc with
    | exact => exact Nat.le_refl m
    | inexact o => cases o <;> exact Nat.le_refl m
  · simp only [shiftToTargetExponent, shiftToExponent]
    omega

/-- Rounding gives a finite number with a bounded power of two. -/
theorem powerAtMost_round {m k : Nat} {e x : Int} (hm : m < 2 ^ k) (he : e ≤ x) (hx : -1074 ≤ x)
    (s : Sign) (acc : Accuracy) :
    PowerAtMost (x + 2 * k + 1) (roundWithAccuracy .binary64 s m e acc) := by
  obtain ⟨hmantissa, hpower⟩ := shiftToTargetExponent_le hm he hx acc
  unfold roundWithAccuracy
  generalize shiftToTargetExponent .binary64 m e acc = shifted at hmantissa hpower
  obtain ⟨em, e'⟩ := shifted
  dsimp only at hmantissa hpower ⊢
  have hrounded : em.roundedMantissa < 2 ^ (k + 1) := by
    have hle := roundedMantissa_le em
    rw [Nat.pow_succ]
    omega
  obtain ⟨-, hpower'⟩ := shiftToTargetExponent_le hrounded hpower (by omega) .exact
  split
  · exact .zero s
  · exact .finite (by omega)

/-- Bits whose exponent field is not all ones are a finite number, and the field bounds its power
of two. -/
theorem powerAtMost_unpack {b : BitVec Format.binary64.numBits} (h : unpackExponent b ≠ -1#_) :
    PowerAtMost (max ((unpackExponent b).toNat - 1075) (-1074)) (unpack .binary64 b) := by
  have hbias : (Format.exponentBias .binary64 : Int) = 1023 := rfl
  unfold unpack
  dsimp only
  rw [if_neg h]
  split
  · next hzero =>
    split
    · exact .zero _
    · refine .finite ?_
      simp only [hzero, hbias, BitVec.toNat_ofNat]
      omega
  · refine .finite ?_
    simp only [hbias]
    omega

/-- An unpacked significand has at most 53 bits. -/
theorem lt_of_unpack {b : BitVec Format.binary64.numBits} {s : Sign} {m : Nat} {e : Int}
    {hm : 0 < m} (h : unpack .binary64 b = .finite s m e hm) : m < 2 ^ 53 := by
  unfold unpack at h
  dsimp only at h
  split at h
  · split at h <;> cases h
  · split at h
    · split at h
      · cases h
      · obtain ⟨-, rfl, -⟩ := UnpackedFloat.finite.inj h
        exact (BitVec.isLt _).trans (by decide)
    · obtain ⟨-, rfl, -⟩ := UnpackedFloat.finite.inj h
      exact BitVec.isLt _

/-- Packing a finite number and unpacking it gives infinity if its power of two is too large, and
otherwise a finite number again. -/
theorem unpack_pack_finite (s : Sign) {m : Nat} (e : Int) (hm : 0 < m) :
    (unpack .binary64 (pack .binary64 (.finite s m e hm))).isInf = true ∧ 972 ≤ e ∨
      PowerAtMost (max e (-1074)) (unpack .binary64 (pack .binary64 (.finite s m e hm))) := by
  have hbias : (Format.exponentBias .binary64 : Int) = 1023 := rfl
  unfold pack
  dsimp only
  rw [hbias]
  split
  · next hlarge => exact .inl ⟨by simp [unpack, packedInfinity, isInf], by omega⟩
  · next hsmall =>
    -- The field is that of the power, or zero for a short significand.
    have hfield : ∀ field : BitVec 11, field.toNat ≤ (e + 1023 + 52).toNat →
        ∀ fraction : BitVec 52, PowerAtMost (max e (-1074))
          (unpack .binary64 (packComponents .binary64 s field fraction)) := by
      intro field hle fraction
      have hexponent : unpackExponent (packComponents .binary64 s field fraction) = field :=
        unpackExponent_packComponents
      have hones : unpackExponent (packComponents .binary64 s field fraction) ≠ -1#_ := by
        rw [hexponent]
        intro hfield
        have hmax : field.toNat = 2047 := congrArg BitVec.toNat hfield
        omega
      have hpower := powerAtMost_unpack hones
      rw [hexponent] at hpower
      exact hpower.mono (by omega)
    right
    split
    · exact hfield _ (by rw [BitVec.toNat_ofNat]; exact Nat.mod_le _ _) _
    · exact hfield _ (Nat.zero_le _) _

/-- Packing a finite number and unpacking it gives a finite one if its power of two is small
enough, or if it is not infinite. -/
theorem powerAtMost_unpack_pack {x : Int} {u : UnpackedFloat} (h : PowerAtMost x u)
    (hfits : x < 972 ∨ (unpack .binary64 (pack .binary64 u)).isInf = false) :
    PowerAtMost (max x (-1074)) (unpack .binary64 (pack .binary64 u)) := by
  cases h with
  | @finite s m e hm he =>
    rcases unpack_pack_finite s e hm with ⟨hinf, hlarge⟩ | hpower
    · rcases hfits with hsmall | hfinite
      · omega
      · rw [hinf] at hfinite
        cases hfinite
    · exact hpower.mono (by omega)
  | zero s =>
    have hzero : unpack .binary64 (pack .binary64 (.zero s)) = .zero s := unpack_packedZero
    rw [hzero]
    exact .zero s

/-- Dividing a finite number gives a finite one, with a bounded power of two. -/
theorem powerAtMost_div {x y : Int} {u v : UnpackedFloat} (hu : PowerAtMost x u)
    (hbits : ∀ s m e hm, u = .finite s m e hm → m < 2 ^ 53) (hv : PowerAtLeast y v) :
    PowerAtMost (max (x - y) (-1074) + 319) (div .binary64 u v) := by
  cases hv with
  | @finite t n f hn hnlt hf =>
    cases hu with
    | zero s => exact .zero _
    | @finite s m e hm he =>
      have hmlt : m < 2 ^ 53 := hbits s m e hm rfl
      have hnlog : n.log2 < 53 := (Nat.log2_lt hn.ne').mpr hnlt
      simp only [div, divCore]
      generalize htarget : min (e - f) _ = target
      simp only [Format.targetExponent, totalExponent, Format.mantissaBits,
        Format.minExponent] at htarget
      have hshift : (e - f - target).toNat ≤ 106 := by omega
      have hquotient : (m <<< (e - f - target).toNat) / n < 2 ^ 159 := by
        refine (Nat.div_le_self _ _).trans_lt ?_
        rw [Nat.shiftLeft_eq]
        calc m * 2 ^ (e - f - target).toNat < 2 ^ 53 * 2 ^ (e - f - target).toNat :=
              Nat.mul_lt_mul_of_pos_right hmlt (Nat.two_pow_pos _)
          _ ≤ 2 ^ 53 * 2 ^ 106 := Nat.mul_le_mul_left _ (Nat.pow_le_pow_right (by omega) hshift)
          _ = 2 ^ 159 := by rw [← Nat.pow_add]
      have hpower : target ≤ max (x - y) (-1074) := by omega
      exact (powerAtMost_round hquotient hpower (by omega) _ _).mono (by omega)

/-- The product of finite numbers is finite before it is packed. -/
theorem exists_powerAtMost_mul {x y : Int} {u v : UnpackedFloat} (hu : PowerAtMost x u)
    (hv : PowerAtMost y v) : ∃ z, PowerAtMost z (mul .binary64 u v) := by
  cases hu with
  | zero s => cases hv <;> exact ⟨0, .zero _⟩
  | @finite s m e hm he =>
    cases hv with
    | zero t => exact ⟨0, .zero _⟩
    | @finite t n f hn hf =>
      have hlt : m * n < 2 ^ (m * n) := Nat.lt_two_pow_self
      exact ⟨_, powerAtMost_round hlt (le_max_left (e + f) (-1074)) (le_max_right _ _) _ _⟩

/-- Rounding a word gives a number with a small power of two. -/
theorem powerAtMost_ofNat {n : Nat} (h : n < UInt64.size) :
    PowerAtMost 233 (UnpackedFloat.ofNat .binary64 n) := by
  have hsize : UInt64.size = 2 ^ 64 := rfl
  unfold UnpackedFloat.ofNat UnpackedFloat.ofInt UnpackedFloat.normalize
  split
  · next hneg => exact absurd (Int.compare_eq_lt.mp hneg) (by omega)
  · exact .zero _
  · unfold UnpackedFloat.round UnpackedFloat.decreaseExponent
    rw [Int.toNat_natCast]
    dsimp only
    generalize htarget : Format.binary64.targetExponent (totalExponent n 0) = target
    simp only [Format.targetExponent, totalExponent, Format.mantissaBits,
      Format.minExponent] at htarget
    have hshift : (0 - target).toNat ≤ 52 := by omega
    have hlt : n <<< (0 - target).toNat < 2 ^ 116 := by
      rw [Nat.shiftLeft_eq]
      calc n * 2 ^ (0 - target).toNat < 2 ^ 64 * 2 ^ (0 - target).toNat :=
            Nat.mul_lt_mul_of_pos_right (hsize ▸ h) (Nat.two_pow_pos _)
        _ ≤ 2 ^ 64 * 2 ^ 52 := Nat.mul_le_mul_left _ (Nat.pow_le_pow_right (by omega) hshift)
        _ = 2 ^ 116 := by rw [← Nat.pow_add]
    have hpower : (0 : Int) - (0 - target).toNat ≤ 0 := by omega
    exact powerAtMost_round hlt hpower (by omega) _ _

namespace Binary64

/-- A finite result is a finite number. -/
theorem isFinite_ofFloat {f : Float} (h : f.isFinite = true) : (ofFloat f).isFinite = true := by
  have hnumber : f.isNaN = false := by
    change f.toModel.unpack.isFinite = true at h
    change f.toModel.unpack.isNaN = false
    generalize f.toModel.unpack = u at h ⊢
    cases u <;> first | rfl | cases h
  have hones : @unpackExponent .binary64 f.toBits.toBitVec ≠ -1#_ := by
    intro hones
    change (UnpackedFloat.unpack .binary64 f.toBits.toBitVec).isFinite = true at h
    unfold UnpackedFloat.unpack at h
    dsimp only at h
    rw [if_pos hones] at h
    split at h <;> cases h
  have hfield : f.toBits.toNat / 2 ^ 52 % 2 ^ 11 ≠ 2047 := by
    intro hfield
    refine hones (BitVec.eq_of_toNat_eq ?_)
    rw [unpackExponent, BitVec.toNat_cast, BitVec.extractLsb_toNat, Nat.shiftRight_eq_div_pow]
    exact hfield
  rw [ofFloat, hnumber, if_neg (by simp), isFinite, magnitudeBits, infinityBits, decide_eq_true_eq]
  dsimp only
  omega

/-- The magnitude is left when the sign is turned over. -/
theorem magnitudeBits_neg (x : Binary64) : x.neg.magnitudeBits = x.magnitudeBits := by
  have hsign : UInt64.toNat 0x8000000000000000 % 2 ^ 63 = 0 := by decide
  have hmagnitude : ∀ z : Binary64, z.magnitudeBits = z.bits.toNat % 2 ^ 63 := fun _ => rfl
  rw [hmagnitude, hmagnitude, neg, UInt64.toNat_xor, Nat.xor_mod_two_pow, hsign, Nat.xor_zero]

end Binary64

end FlowTally
