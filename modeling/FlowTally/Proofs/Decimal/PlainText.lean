import FlowTally.Decimal.Notation
import FlowTally.Proofs.Decimal.Digits
import FlowTally.Proofs.Decimal.Shortest
import Mathlib.Data.List.TakeWhile

/-!
# The plain text tells the number

A text of digits with at most one point spells one number, however many zeros it has, and
the positional text of a decimal spells that decimal. So the plain text of a positive
magnitude spells a number in its interval and tells the magnitude; the sign is written
in front of it, and no other text looks like it.
-/

namespace FlowTally

namespace Decimal

/-- The digits behind the point of a text. -/
def placesOf (cs : List Char) : Nat := (cs.dropWhile (· ≠ '.')).length - 1

/-- The number that a text of digits with at most one point spells. -/
def spelled (cs : List Char) : ℚ := ofDigits (cs.filter (· ≠ '.')) / 10 ^ placesOf cs

/-- A digit is no point. -/
theorem ne_point_of_isDigit {c : Char} (h : isDigit c = true) : decide (c ≠ '.') = true := by
  rw [decide_eq_true_eq]
  rintro rfl
  revert h
  decide

/-- Digits without a point spell a natural number. -/
theorem spelled_digits {ds : List Char} (h : ∀ c ∈ ds, isDigit c = true) :
    spelled ds = ofDigits ds := by
  have hall : ∀ c ∈ ds, decide (c ≠ '.') = true := fun c hc => ne_point_of_isDigit (h c hc)
  have hdrop : ds.dropWhile (· ≠ '.') = [] := List.dropWhile_eq_nil_iff.mpr hall
  rw [spelled, placesOf, List.filter_eq_self.mpr hall, hdrop]
  simp

/-- Digits around a point spell all of them, by a power of ten for those behind it. -/
theorem spelled_point {cs ds : List Char} (hcs : ∀ c ∈ cs, isDigit c = true)
    (hds : ∀ c ∈ ds, isDigit c = true) :
    spelled (cs ++ '.' :: ds) = ofDigits (cs ++ ds) / 10 ^ ds.length := by
  have hfront : ∀ c ∈ cs, decide (c ≠ '.') = true := fun c hc => ne_point_of_isDigit (hcs c hc)
  have hback : ∀ c ∈ ds, decide (c ≠ '.') = true := fun c hc => ne_point_of_isDigit (hds c hc)
  have hdrop : (cs ++ '.' :: ds).dropWhile (· ≠ '.') = '.' :: ds := by
    rw [List.dropWhile_append_of_pos hfront]
    simp
  have hfilter : (cs ++ '.' :: ds).filter (· ≠ '.') = cs ++ ds := by
    rw [List.filter_append, List.filter_eq_self.mpr hfront, List.filter_cons_of_neg (by simp),
      List.filter_eq_self.mpr hback]
  rw [spelled, placesOf, hdrop, hfilter, List.length_cons, Nat.add_sub_cancel]

/-- Zeros are digits. -/
theorem isDigit_of_mem_zeros {k : Nat} {c : Char} (h : c ∈ List.replicate k '0') :
    isDigit c = true := by
  rw [List.eq_of_mem_replicate h]
  decide

/-- The positional text of a decimal spells that decimal. -/
theorem spelled_positional {ds : List Char} (h : ∀ c ∈ ds, isDigit c = true) (e : ℤ) :
    spelled (positional ds e) = ofDigits ds * 10 ^ e := by
  unfold positional
  by_cases he : 0 ≤ e
  · obtain ⟨k, rfl⟩ := Int.eq_ofNat_of_zero_le he
    have hdigits : ∀ c ∈ ds ++ List.replicate k '0', isDigit c = true := by
      intro c hc
      rcases List.mem_append.mp hc with hc | hc
      · exact h c hc
      · exact isDigit_of_mem_zeros hc
    rw [if_pos he, Int.toNat_natCast, spelled_digits hdigits,
      ofDigits_append_zeros, zpow_natCast]
    push_cast
    ring
  · have hplaces : (10 : ℚ) ^ e = (10 ^ e.natAbs)⁻¹ := by
      have hexponent : e = -(e.natAbs : ℤ) := by omega
      rw [hexponent, zpow_neg, zpow_natCast, Int.natAbs_neg, Int.natAbs_natCast]
    rw [if_neg he, hplaces, ← div_eq_mul_inv]
    by_cases hlt : e.natAbs < ds.length
    · have hfront : ∀ c ∈ ds.take (ds.length - e.natAbs), isDigit c = true :=
        fun c hc => h c (List.mem_of_mem_take hc)
      have hback : ∀ c ∈ ds.drop (ds.length - e.natAbs), isDigit c = true :=
        fun c hc => h c (List.mem_of_mem_drop hc)
      have hlength : (ds.drop (ds.length - e.natAbs)).length = e.natAbs := by
        rw [List.length_drop]
        omega
      simp only [if_pos hlt]
      rw [spelled_point hfront hback, List.take_append_drop, hlength]
    · have hback : ∀ c ∈ List.replicate (e.natAbs - ds.length) '0' ++ ds, isDigit c = true := by
        intro c hc
        rcases List.mem_append.mp hc with hc | hc
        · exact isDigit_of_mem_zeros hc
        · exact h c hc
      have hlength : (List.replicate (e.natAbs - ds.length) '0' ++ ds).length = e.natAbs := by
        rw [List.length_append, List.length_replicate]
        omega
      have hfront : ∀ c ∈ ['0'], isDigit c = true := List.forall_mem_singleton.mpr rfl
      have hpoint := spelled_point hfront hback
      have hzeros : ofDigits (['0'] ++ (List.replicate (e.natAbs - ds.length) '0' ++ ds)) =
          ofDigits ds := ofDigits_zeros_append (e.natAbs - ds.length + 1) ds
      rw [hlength, hzeros] at hpoint
      simp only [if_neg hlt]
      exact hpoint

/-- A positional text is made of digits and a point. -/
theorem mem_positional {ds : List Char} (h : ∀ c ∈ ds, isDigit c = true) {e : ℤ} {c : Char}
    (hc : c ∈ positional ds e) : isDigit c = true ∨ c = '.' := by
  unfold positional at hc
  split at hc
  · rcases List.mem_append.mp hc with hc | hc
    · exact .inl (h c hc)
    · exact .inl (isDigit_of_mem_zeros hc)
  · dsimp only at hc
    split at hc
    · rcases List.mem_append.mp hc with hc | hc
      · exact .inl (h c (List.mem_of_mem_take hc))
      · rcases List.mem_cons.mp hc with hc | hc
        · exact .inr hc
        · exact .inl (h c (List.mem_of_mem_drop hc))
    · simp only [List.cons_append, List.mem_cons, List.mem_append] at hc
      rcases hc with rfl | hc | hc | hc
      · exact .inl (by decide)
      · exact .inr hc
      · exact .inl (isDigit_of_mem_zeros hc)
      · exact .inl (h c hc)

/-- A positional text starts with a digit. -/
theorem exists_digit_of_positional {ds : List Char} (hne : ds ≠ [])
    (h : ∀ c ∈ ds, isDigit c = true) (e : ℤ) :
    ∃ c rest, positional ds e = c :: rest ∧ isDigit c = true := by
  obtain ⟨d, tail, rfl⟩ := List.exists_cons_of_ne_nil hne
  have hd := h d List.mem_cons_self
  unfold positional
  split
  · exact ⟨d, _, rfl, hd⟩
  · dsimp only
    split
    · next hlt =>
      obtain ⟨k, hk⟩ : ∃ k, (d :: tail).length - e.natAbs = k + 1 :=
        ⟨(d :: tail).length - e.natAbs - 1, by omega⟩
      rw [hk, List.take_succ_cons]
      exact ⟨d, _, rfl, hd⟩
    · exact ⟨'0', _, rfl, by decide⟩

end Decimal

namespace Binary64

open Decimal

/-- A number is told by its sign and its magnitude. -/
theorem eq_of_magnitudeBits {x y : Binary64} (hsign : x.isNegative = y.isNegative)
    (h : x.magnitudeBits = y.magnitudeBits) : x = y := by
  apply orderKey_injective
  rw [orderKey, orderKey, hsign, h]

/-- A finite magnitude that is not zero has a significand. -/
theorem significand_pos {x : Binary64} (h : x.isZero = false) : 0 < x.significand := by
  simp only [isZero, beq_eq_false_iff_ne] at h
  unfold significand
  split <;> omega

/-- The text of a magnitude. -/
def magnitudeText (x : Binary64) : List Char :=
  if x.isInfinite then ['i', 'n', 'f']
  else if x.isZero then ['0']
  else positional (digits (shortest .up x).digits) (shortest .up x).exponent

/-- The plain text is the text of the magnitude behind the sign. -/
theorem plainText_eq {x : Binary64} (h : x.isNaN = false) :
    x.plainText = x.withSign x.magnitudeText := by
  rw [plainText, magnitudeText, if_neg (by simp [h])]
  split
  · rfl
  · split <;> rfl

/-- The text of a magnitude starts with a digit, except that of infinity. -/
theorem exists_head_magnitudeText (x : Binary64) :
    ∃ c rest, x.magnitudeText = c :: rest ∧
      (x.isInfinite = true ∧ c = 'i' ∨ x.isInfinite = false ∧ isDigit c = true) := by
  unfold magnitudeText
  cases hinfinite : x.isInfinite with
  | true => exact ⟨'i', _, rfl, .inl ⟨rfl, rfl⟩⟩
  | false =>
    cases x.isZero with
    | true => exact ⟨'0', _, rfl, .inr ⟨rfl, by decide⟩⟩
    | false =>
      obtain ⟨c, rest, htext, hc⟩ := exists_digit_of_positional
        (digits_ne_nil (shortest .up x).digits) (isDigit_of_mem_digits _) (shortest .up x).exponent
      exact ⟨c, rest, htext, .inr ⟨rfl, hc⟩⟩

/-- No interval of a positive magnitude reaches zero. -/
theorem not_holds_zero {x : Binary64} (h : x.isZero = false) : ¬(interval x).Holds 0 := by
  intro hholds
  have hpos := significand_pos h
  have hlow : 0 < (interval x).low := by
    simp only [interval]
    split <;> omega
  have hend : (0 : ℚ) < (interval x).low * 2 ^ (interval x).unit := by positivity
  exact absurd hholds.low_le (not_le.mpr hend)

/-- A number stands for a finite magnitude: it is zero, or in the interval of the magnitude. -/
def StandsFor (q : ℚ) (x : Binary64) : Prop :=
  x.isZero = true ∧ q = 0 ∨ x.isZero = false ∧ (interval x).Holds q

/-- A number stands for one magnitude only. -/
theorem StandsFor.magnitudeBits_eq {q : ℚ} {x y : Binary64} (hx : StandsFor q x)
    (hy : StandsFor q y) : x.magnitudeBits = y.magnitudeBits := by
  rcases hx with ⟨hxzero, rfl⟩ | ⟨hxpos, hxholds⟩
  · rcases hy with ⟨hyzero, -⟩ | ⟨hypos, hyholds⟩
    · simp only [isZero, beq_iff_eq] at hxzero hyzero
      rw [hxzero, hyzero]
    · exact absurd hyholds (not_holds_zero hypos)
  · rcases hy with ⟨-, rfl⟩ | ⟨-, hyholds⟩
    · exact absurd hxholds (not_holds_zero hxpos)
    · exact magnitudeBits_eq_of_holds hxholds hyholds

/-- The text of a finite magnitude spells a number that stands for it. -/
theorem standsFor_magnitudeText {x : Binary64} (h : x.isInfinite = false) :
    StandsFor (spelled x.magnitudeText) x := by
  unfold magnitudeText
  cases hzero : x.isZero with
  | true =>
    have hdigit : ∀ c ∈ ['0'], isDigit c = true := List.forall_mem_singleton.mpr rfl
    refine .inl ⟨hzero, ?_⟩
    rw [if_neg (by simp [h]), if_pos rfl, spelled_digits hdigit]
    rfl
  | false =>
    refine .inr ⟨hzero, ?_⟩
    rw [if_neg (by simp [h]), if_neg (by simp), spelled_positional (isDigit_of_mem_digits _),
      ofDigits_digits]
    exact holds_shortest .up (significand_pos hzero)

/-- The text of a magnitude tells it. -/
theorem magnitudeText_injective {x y : Binary64} (h : x.magnitudeText = y.magnitudeText) :
    x.magnitudeBits = y.magnitudeBits := by
  obtain ⟨c, rest, hx, hc⟩ := x.exists_head_magnitudeText
  obtain ⟨d, rest', hy, hd⟩ := y.exists_head_magnitudeText
  obtain rfl : c = d := by
    rw [hx, hy] at h
    exact (List.cons.inj h).1
  rcases hc with ⟨hxinf, rfl⟩ | ⟨hxfin, hdigit⟩
  · rcases hd with ⟨hyinf, -⟩ | ⟨-, hdigit⟩
    · simp only [isInfinite, beq_iff_eq] at hxinf hyinf
      rw [hxinf, hyinf]
    · exact absurd hdigit (by decide)
  · have hyfin : y.isInfinite = false := by
      rcases hd with ⟨-, rfl⟩ | ⟨hyfin, -⟩
      · exact absurd hdigit (by decide)
      · exact hyfin
    have hspelled := standsFor_magnitudeText hyfin
    rw [← h] at hspelled
    exact (standsFor_magnitudeText hxfin).magnitudeBits_eq hspelled

/-- Behind the sign stands a text that tells the sign, if it starts with none itself. -/
theorem withSign_injective {x y : Binary64} {cs ds : List Char} (hcs : cs.head? ≠ some '-')
    (hds : ds.head? ≠ some '-') (h : x.withSign cs = y.withSign ds) :
    x.isNegative = y.isNegative ∧ cs = ds := by
  unfold withSign at h
  cases hx : x.isNegative with
  | true =>
    cases hy : y.isNegative with
    | true =>
      simp only [hx, hy, if_true] at h
      exact ⟨rfl, (List.cons.inj h).2⟩
    | false =>
      simp only [hx, hy, if_true, Bool.false_eq_true, if_false] at h
      exact absurd (by rw [← h, List.head?_cons]) hds
  | false =>
    cases hy : y.isNegative with
    | true =>
      simp only [hx, hy, if_true, Bool.false_eq_true, if_false] at h
      exact absurd (by rw [h, List.head?_cons]) hcs
    | false =>
      simp only [hx, hy, Bool.false_eq_true, if_false] at h
      exact ⟨rfl, h⟩

/-- The plain text tells a number that is one. -/
theorem plainText_injective {x y : Binary64} (hx : x.isNaN = false) (hy : y.isNaN = false)
    (h : x.plainText = y.plainText) : x = y := by
  have hplain : ∀ z : Binary64, z.magnitudeText.head? ≠ some '-' := by
    intro z hz
    obtain ⟨c, rest, htext, hc⟩ := z.exists_head_magnitudeText
    rw [htext, List.head?_cons] at hz
    obtain rfl := Option.some.inj hz
    rcases hc with ⟨-, hc⟩ | ⟨-, hc⟩
    · exact absurd hc (by decide)
    · exact absurd hc (by decide)
  rw [plainText_eq hx, plainText_eq hy] at h
  obtain ⟨hsign, htext⟩ := withSign_injective (hplain x) (hplain y) h
  exact eq_of_magnitudeBits hsign (magnitudeText_injective htext)

/-- The plain text of a number is not that of a NaN. -/
theorem plainText_ne_of_isNaN {x y : Binary64} (hx : x.isNaN = false) (hy : y.isNaN = true) :
    x.plainText ≠ y.plainText := by
  obtain ⟨c, rest, hxtext, hc⟩ := x.exists_head_magnitudeText
  have hytext : y.plainText = ['N', 'a', 'N'] := by rw [plainText, if_pos hy]
  rw [plainText_eq hx, hytext, withSign, hxtext]
  intro h
  cases hsign : x.isNegative with
  | true =>
    rw [hsign, if_pos rfl] at h
    exact absurd (List.cons.inj h).1 (by decide)
  | false =>
    rw [hsign, if_neg (by decide)] at h
    obtain rfl := (List.cons.inj h).1
    rcases hc with ⟨-, hi⟩ | ⟨-, hdigit⟩
    · exact absurd hi (by decide)
    · exact absurd hdigit (by decide)

/-- The plain text of a number contains no semicolon. -/
theorem semicolon_not_mem_plainText (x : Binary64) : ';' ∉ x.plainText := by
  have hpositional : ∀ (n : Nat) (e : ℤ), ';' ∉ positional (digits n) e :=
    fun n e h => absurd (mem_positional (isDigit_of_mem_digits n) h) (by decide)
  have hsign : ∀ text : List Char, ';' ∉ text → ';' ∉ x.withSign text := by
    intro text htext
    unfold withSign
    split
    · rw [List.mem_cons, not_or]
      exact ⟨by decide, htext⟩
    · exact htext
  unfold plainText
  split
  · decide
  · split
    · exact hsign _ (by decide)
    · split
      · exact hsign _ (by decide)
      · exact hsign _ (hpositional _ _)

end Binary64

end FlowTally
