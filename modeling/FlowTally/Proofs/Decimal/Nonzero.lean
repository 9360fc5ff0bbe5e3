import FlowTally.Proofs.Decimal.Finite

/-!
# Words and their quotients are not zero

Rounding keeps the leading digit of a significand, or raises it by one place. So a number whose
power of two is well above the least one is not rounded to zero, and it keeps a significand of full
length through packing and unpacking. A word other than zero is such a number, and so is the
quotient of two of them.
-/

namespace FlowTally

open Float.Model (UnpackedFloat Format totalExponent)
open Float.Model.UnpackedFloat

/-- An unpacked number has a significand of 53 bits, and its power of two lies between bounds. -/
inductive Normal (x y : Int) : UnpackedFloat → Prop where
  /-- The leading bit is the last one, and the power of two is neither below nor above. -/
  | finite {s : Sign} {m : Nat} {e : Int} {hm : 0 < m} (hbits : m.log2 = 52) (hx : x ≤ e)
    (hy : e ≤ y) : Normal x y (.finite s m e hm)

/-- Wider bounds hold too. -/
theorem Normal.mono {x y x' y' : Int} {u : UnpackedFloat} (h : Normal x y u) (hx : x' ≤ x)
    (hy : y ≤ y') : Normal x' y' u := by
  cases h with
  | finite hbits hxe hey => exact .finite hbits (hx.trans hxe) (hey.trans hy)

/-- A number with a full significand is finite. -/
theorem Normal.isFinite {x y : Int} {u : UnpackedFloat} (h : Normal x y u) : u.isFinite = true := by
  cases h
  rfl

/-- A number with a full significand is a number. -/
theorem Normal.isNaN_eq_false {x y : Int} {u : UnpackedFloat} (h : Normal x y u) :
    u.isNaN = false := by
  cases h
  rfl

/-- A number between two powers of two has the exponent of the lower one as its logarithm. -/
theorem log2_eq {m j : Nat} (hlow : 2 ^ j ≤ m) (hhigh : m < 2 ^ (j + 1)) : m.log2 = j :=
  (Nat.log2_eq_iff (Nat.two_pow_pos j |>.trans_le hlow).ne').mpr ⟨hlow, hhigh⟩

/-- Shifting divides the significand by a power of two. -/
theorem mantissa_shiftRight (em : ExtendedMantissa) (n : Nat) :
    (em >>> n).mantissa = em.mantissa / 2 ^ n := by
  change (n.repeat ExtendedMantissa.shiftRightOne em).mantissa = em.mantissa / 2 ^ n
  induction n with
  | zero => exact (Nat.div_one _).symm
  | succ n ih =>
    change (n.repeat ExtendedMantissa.shiftRightOne em).mantissa / 2 = _
    rw [ih, Nat.div_div_eq_div_mul, Nat.pow_succ]

/-- Rounding does not lower the significand. -/
theorem le_roundedMantissa (em : ExtendedMantissa) : em.mantissa ≤ em.roundedMantissa := by
  obtain ⟨m, round, sticky⟩ := em
  cases round <;> cases sticky <;>
    simp only [ExtendedMantissa.roundedMantissa, ExtendedMantissa.accuracy,
      Accuracy.roundToNearestEven] <;> omega

/-- Shifting a long significand leaves its 53 leading bits. -/
theorem shiftToTargetExponent_eq {m j : Nat} {e : Int} (hlow : 2 ^ j ≤ m) (hhigh : m < 2 ^ (j + 1))
    (hj : 52 ≤ j) (he : -1074 ≤ j + e - 52) (acc : Accuracy) :
    2 ^ 52 ≤ (shiftToTargetExponent .binary64 m e acc).1.mantissa ∧
      (shiftToTargetExponent .binary64 m e acc).1.mantissa < 2 ^ 53 ∧
      (shiftToTargetExponent .binary64 m e acc).2 = j + e - 52 ∧
      (shiftToTargetExponent .binary64 m e acc).1.mantissa = m / 2 ^ (j - 52) := by
  have htarget : Format.binary64.targetExponent (totalExponent m e) = j + e - 52 := by
    simp only [Format.targetExponent, totalExponent, Format.mantissaBits, Format.minExponent,
      log2_eq hlow hhigh]
    omega
  have hshift : (j + e - 52 - e).toNat = j - 52 := by omega
  have hmantissa : (ExtendedMantissa.ofMantissaAndAccuracy m acc).mantissa = m := by
    cases acc with
    | exact => rfl
    | inexact o => cases o <;> rfl
  simp only [shiftToTargetExponent, shiftToExponent, htarget, hshift, mantissa_shiftRight,
    hmantissa]
  refine ⟨?_, ?_, by omega, trivial⟩
  · rw [Nat.le_div_iff_mul_le (Nat.two_pow_pos _), ← Nat.pow_add]
    rwa [show 52 + (j - 52) = j by omega]
  · rw [Nat.div_lt_iff_lt_mul (Nat.two_pow_pos _), ← Nat.pow_add]
    rwa [show 53 + (j - 52) = j + 1 by omega]

/-- Rounding a long significand leaves one of 53 bits. It raises the power of two by at most one
more than its length asks for, and adds at most one to the leading 53 bits. -/
theorem exists_round {m j : Nat} {e : Int} (hlow : 2 ^ j ≤ m) (hhigh : m < 2 ^ (j + 1))
    (hj : 52 ≤ j) (he : -1074 ≤ j + e - 52) (s : Sign) (acc : Accuracy) :
    ∃ n e', ∃ hn : 0 < n, roundWithAccuracy .binary64 s m e acc = .finite s n e' hn ∧
      n.log2 = 52 ∧ j + e - 52 ≤ e' ∧ e' ≤ j + e - 51 ∧
      n * 2 ^ (e' - (j + e - 52)).toNat ≤ m / 2 ^ (j - 52) + 1 := by
  obtain ⟨hleast, hmost, hpower, hcut⟩ := shiftToTargetExponent_eq hlow hhigh hj he acc
  unfold roundWithAccuracy
  generalize shiftToTargetExponent .binary64 m e acc = shifted at hleast hmost hpower hcut
  obtain ⟨em, e'⟩ := shifted
  dsimp only at hleast hmost hpower hcut ⊢
  have hup := roundedMantissa_le em
  have hdown := le_roundedMantissa em
  have hagain : ∃ i : Nat, 52 ≤ i ∧ i ≤ 53 ∧ 2 ^ i ≤ em.roundedMantissa ∧
      em.roundedMantissa < 2 ^ (i + 1) := by
    by_cases hcarry : em.roundedMantissa < 2 ^ 53
    · exact ⟨52, by omega, by omega, by omega, hcarry⟩
    · exact ⟨53, by omega, by omega, by omega, by omega⟩
  obtain ⟨i, hi, hi', hleast', hmost'⟩ := hagain
  obtain ⟨hfinal, hfinal', hpower', hcut'⟩ :=
    shiftToTargetExponent_eq (e := e') hleast' hmost' hi (by omega) .exact
  split
  · next hzero => omega
  · next hne =>
    refine ⟨_, _, Nat.pos_of_ne_zero hne, rfl, log2_eq hfinal hfinal', by omega, by omega, ?_⟩
    have hplaces : ((shiftToTargetExponent .binary64 em.roundedMantissa e' .exact).2 -
        (j + e - 52)).toNat = i - 52 := by omega
    rw [hplaces, hcut']
    exact (Nat.div_mul_le_self _ _).trans (hcut ▸ hup)

/-- Rounding a long significand leaves a full one. -/
theorem normal_round {m j : Nat} {e : Int} (hlow : 2 ^ j ≤ m) (hhigh : m < 2 ^ (j + 1))
    (hj : 52 ≤ j) (he : -1074 ≤ j + e - 52) (s : Sign) (acc : Accuracy) :
    Normal (j + e - 52) (j + e - 51) (roundWithAccuracy .binary64 s m e acc) := by
  obtain ⟨n, e', hn, hround, hbits, hleast, hmost, -⟩ := exists_round hlow hhigh hj he s acc
  rw [hround]
  exact .finite hbits hleast hmost

/-- A significand of 53 bits is unpacked from its fraction, with its leading bit. -/
theorem one_append_ofNat {m : Nat} (h : m.log2 = 52) : (1#1 ++ BitVec.ofNat 52 m).toNat = m := by
  have hm : m ≠ 0 := by
    rintro rfl
    cases h
  obtain ⟨hlow, hhigh⟩ := (Nat.log2_eq_iff hm).mp h
  rw [BitVec.toNat_append, ← Nat.shiftLeft_add_eq_or_of_lt (BitVec.isLt _), BitVec.toNat_ofNat]
  change 1 * 2 ^ 52 + m % 2 ^ 52 = m
  omega

/-- The sign that is packed is unpacked again. -/
theorem ofBitVec_unpackSign (s : Sign) (field : BitVec 11) (fraction : BitVec 52) :
    Sign.ofBitVec (unpackSign (packComponents .binary64 s field fraction)) = s := by
  have hsign : unpackSign (packComponents .binary64 s field fraction) = s.toBitVec := by
    refine BitVec.eq_of_getLsbD_eq fun i hi => ?_
    obtain rfl : i = 0 := by omega
    simp only [unpackSign, packComponents, BitVec.getLsbD_cast, BitVec.getLsbD_extract]
    change (decide (0 ≤ 0) && (s.toBitVec ++ field ++ fraction).getLsbD 63) = _
    rw [BitVec.getLsbD_append, BitVec.getLsbD_append]
    rfl
  rw [hsign]
  cases s <;> rfl

/-- Packing a number with a full significand and unpacking it loses nothing. -/
theorem unpack_pack_eq (s : Sign) {m : Nat} {e : Int} (hm : 0 < m) (hbits : m.log2 = 52)
    (hleast : -1074 ≤ e) (hmost : e ≤ 971) :
    unpack .binary64 (pack .binary64 (.finite s m e hm)) = .finite s m e hm := by
  have hbias : (Format.exponentBias .binary64 : Int) = 1023 := rfl
  have hfits : ¬2 ^ 11 ≤ (e + 1023 + (52 : Nat)).toNat + 1 := by omega
  have hshort : (e + 1023 + (52 : Nat)).toNat < 2 ^ 11 := by omega
  have hfull : m.log2 + 1 = Format.binary64.mantissaBits := by rw [hbits]; rfl
  unfold pack
  dsimp only
  rw [hbias, if_neg hfits, if_pos hfull]
  generalize hfield : BitVec.ofNat 11 (e + 1023 + (52 : Nat)).toNat = field
  have hpower : field.toNat = (e + 1023 + (52 : Nat)).toNat := by
    rw [← hfield, BitVec.toNat_ofNat]
    exact Nat.mod_eq_of_lt hshort
  have hones : field ≠ -1#_ := by
    intro hones
    have hmax : field.toNat = 2047 := congrArg BitVec.toNat hones
    omega
  have hzero : field ≠ 0#_ := by
    intro hzero
    have hmin : field.toNat = 0 := congrArg BitVec.toNat hzero
    omega
  unfold unpack
  simp only [unpackExponent_packComponents, unpackMantissa_packComponents, ofBitVec_unpackSign,
    if_neg hones, if_neg hzero, hpower, hbias]
  congr 1
  · exact one_append_ofNat hbits
  · omega

/-- Packing a number with a full significand and unpacking it gives such a number again. -/
theorem normal_unpack_pack {x y : Int} {u : UnpackedFloat} (h : Normal x y u) (hx : -1074 ≤ x)
    (hy : y ≤ 971) : Normal x y (unpack .binary64 (pack .binary64 u)) := by
  cases h with
  | @finite s m e hm hbits hxe hye =>
    rw [unpack_pack_eq s hm hbits (hx.trans hxe) (hye.trans hy)]
    exact .finite hbits hxe hye

/-- Bits that unpack to a number with a full significand are not those of a zero. -/
theorem bits_ne_zero_of_normal {x y : Int} {b : BitVec Format.binary64.numBits}
    (h : Normal x y (unpack .binary64 b)) : b.toNat % 2 ^ 63 ≠ 0 := by
  intro hzero
  have hexponent : unpackExponent b = 0#_ := by
    refine BitVec.eq_of_toNat_eq ?_
    rw [unpackExponent, BitVec.toNat_cast, BitVec.extractLsb_toNat, Nat.shiftRight_eq_div_pow]
    change b.toNat / 2 ^ 52 % 2 ^ 11 = 0
    omega
  have hfraction : unpackMantissa b = 0#_ := by
    refine BitVec.eq_of_toNat_eq ?_
    rw [unpackMantissa, BitVec.toNat_cast, BitVec.extractLsb_toNat, Nat.shiftRight_eq_div_pow]
    change b.toNat / 2 ^ 0 % 2 ^ 52 = 0
    omega
  unfold unpack at h
  dsimp only at h
  rw [if_neg (by rw [hexponent]; decide), if_pos hexponent, dif_pos hfraction] at h
  cases h

/-- A word other than zero is filled up to at least 53 bits before it is rounded. -/
theorem exists_ofNat {n : Nat} (hn : 0 < n) (h : n < 2 ^ 64) :
    ∃ place shift : Nat, place < 64 ∧ 52 ≤ place + shift ∧
      2 ^ (place + shift) ≤ n * 2 ^ shift ∧ n * 2 ^ shift < 2 ^ (place + shift + 1) ∧
      UnpackedFloat.ofNat .binary64 n =
        roundWithAccuracy .binary64 .positive (n * 2 ^ shift) (0 - (shift : Int)) .exact := by
  obtain ⟨hleast, hmost⟩ := (Nat.log2_eq_iff hn.ne').mp rfl
  have hlog : n.log2 < 64 := (Nat.log2_lt hn.ne').mpr h
  generalize hplace : n.log2 = place at hleast hmost hlog
  have htarget : Format.binary64.targetExponent (totalExponent n 0) = place - 52 := by
    simp only [Format.targetExponent, totalExponent, Format.mantissaBits, Format.minExponent, hplace]
    omega
  refine ⟨place, (0 - ((place : Int) - 52)).toNat, hlog, by omega, ?_, ?_, ?_⟩
  · rw [Nat.pow_add]
    exact Nat.mul_le_mul_right _ hleast
  · rw [Nat.add_right_comm, Nat.pow_add]
    exact Nat.mul_lt_mul_of_pos_right hmost (Nat.two_pow_pos _)
  · unfold UnpackedFloat.ofNat UnpackedFloat.ofInt UnpackedFloat.normalize
    split
    · next hneg => exact absurd (Int.compare_eq_lt.mp hneg) (by omega)
    · next hzero => exact absurd (Int.compare_eq_eq.mp hzero) (by omega)
    · unfold UnpackedFloat.round UnpackedFloat.decreaseExponent
      rw [Int.toNat_natCast, htarget]
      dsimp only
      rw [Nat.shiftLeft_eq]

/-- Rounding a word other than zero gives a number with a full significand. -/
theorem normal_ofNat {n : Nat} (hn : 0 < n) (h : n < 2 ^ 64) :
    Normal (-52) 12 (UnpackedFloat.ofNat .binary64 n) := by
  obtain ⟨place, shift, hplace, hlong, hleast, hmost, hround⟩ := exists_ofNat hn h
  rw [hround]
  exact (normal_round hleast hmost hlong (by omega) _ _).mono (by omega) (by omega)

/-- The quotient of two numbers with full significands is one. -/
theorem normal_div {x y x' y' : Int} {u v : UnpackedFloat} (hu : Normal x y u) (hv : Normal x' y' v)
    (hleast : -1021 ≤ x - y') : Normal (x - y' - 53) (y - x' + 1) (div .binary64 u v) := by
  cases hu with
  | @finite s m e hm hbits hxe hye =>
    cases hv with
    | @finite t n f hn hbits' hxf hyf =>
      obtain ⟨hleast, hmost⟩ := (Nat.log2_eq_iff hm.ne').mp hbits
      obtain ⟨hleast', hmost'⟩ := (Nat.log2_eq_iff hn.ne').mp hbits'
      have htarget : min (e - f) (Format.binary64.targetExponent
          (totalExponent m e - totalExponent n f)) = e - f - 53 := by
        simp only [Format.targetExponent, totalExponent, Format.mantissaBits, Format.minExponent,
          hbits, hbits']
        omega
      have hshift : (e - f - (e - f - 53)).toNat = 53 := by omega
      simp only [div, divCore, htarget, hshift, Nat.shiftLeft_eq]
      have hlow : 2 ^ 52 ≤ m * 2 ^ 53 / n := by
        rw [Nat.le_div_iff_mul_le hn]
        omega
      have hhigh : m * 2 ^ 53 / n < 2 ^ 54 := by
        rw [Nat.div_lt_iff_lt_mul hn]
        omega
      by_cases hshort : m * 2 ^ 53 / n < 2 ^ 53
      · exact (normal_round hlow hshort (by omega) (by omega) _ _).mono (by omega) (by omega)
      · exact (normal_round (not_lt.mp hshort) hhigh (by omega) (by omega) _ _).mono (by omega)
          (by omega)

namespace Binary64

/-- A machine number with a full significand is kept as such a number, which is not zero. -/
theorem normal_ofFloat {x y : Int} {f : Float} (h : Normal x y f.toModel.unpack) (hx : -1074 ≤ x)
    (hy : y ≤ 971) : (ofFloat f).isNaN = false ∧ (ofFloat f).isZero = false ∧
      Normal x y (ofFloat f).toFloat.toModel.unpack := by
  have hfinite : f.isFinite = true := h.isFinite
  have hnumber : f.isNaN = false := h.isNaN_eq_false
  have hbits : Normal x y (unpack .binary64 f.toBits.toBitVec) := h
  have hbelow := isFinite_ofFloat hfinite
  rw [isFinite, decide_eq_true_eq] at hbelow
  refine ⟨?_, ?_, ?_⟩
  · rw [isNaN, decide_eq_false_iff_not]
    omega
  · rw [ofFloat, hnumber, if_neg Bool.false_ne_true, isZero, beq_eq_false_iff_ne]
    exact bits_ne_zero_of_normal hbits
  · rw [ofFloat, hnumber, if_neg Bool.false_ne_true]
    exact normal_unpack_pack hbits hx hy

/-- A word other than zero is a number with a full significand. -/
theorem normal_toFloat {n : UInt64} (h : n ≠ 0) : Normal (-52) 12 n.toFloat.toModel.unpack := by
  have hpos : 0 < n.toNat := Nat.pos_of_ne_zero fun hzero => h (UInt64.toNat_inj.mp hzero)
  exact normal_unpack_pack (normal_ofNat hpos n.toNat_lt) (by omega) (by omega)

/-- A word is the number zero only if it is zero. -/
theorem isZero_ofUInt64 (n : UInt64) : (ofUInt64 n).isZero = decide (n = 0) := by
  by_cases h : n = 0
  · subst h
    decide
  · rw [decide_eq_false h]
    exact (normal_ofFloat (normal_toFloat h) (by omega) (by omega)).2.1

/-- The quotient of words other than zero is not zero. -/
theorem isZero_div_ofUInt64 {m n : UInt64} (hm : m ≠ 0) (hn : n ≠ 0) :
    ((ofUInt64 m).div (ofUInt64 n)).isZero = false := by
  obtain ⟨hnumber, -, hnormal⟩ := normal_ofFloat (normal_toFloat hm) (by omega) (by omega)
  obtain ⟨hnumber', -, hnormal'⟩ := normal_ofFloat (normal_toFloat hn) (by omega) (by omega)
  have hquotient : Normal (-117) 65
      ((ofUInt64 m).toFloat / (ofUInt64 n).toFloat).toModel.unpack :=
    normal_unpack_pack (normal_div hnormal hnormal' (by omega)) (by omega) (by omega)
  rw [div, lift₂, ofUInt64, ofUInt64, hnumber, hnumber', if_neg Bool.false_ne_true,
    if_neg Bool.false_ne_true]
  exact (normal_ofFloat hquotient (by omega) (by omega)).2.1

end Binary64

end FlowTally
