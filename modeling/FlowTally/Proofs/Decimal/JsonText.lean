import FlowTally.Proofs.Decimal.PlainText

/-!
# The text of a number in a line tells the number

In the form of JSON texts a number may have an exponent behind its digits. Digits in front of an
exponent spell their number times a power of ten, so in either notation the text of a finite
magnitude spells a number that stands for it.
-/

namespace FlowTally

namespace Decimal

/-- The power of ten that an exponent behind digits stands for. -/
def spelledExponent : List Char → ℤ
  | 'e' :: '-' :: ds => -(ofDigits ds)
  | 'e' :: '+' :: ds => ofDigits ds
  | _ => 0

/-- The number that digits with at most one point spell in front of an exponent, if there is
one. -/
def spelledScaled (cs : List Char) : ℚ :=
  spelled (cs.takeWhile (· ≠ 'e')) * 10 ^ spelledExponent (cs.dropWhile (· ≠ 'e'))

/-- Text without an exponent is passed when an exponent is looked for. -/
theorem forall_ne_of_notMem {cs : List Char} (h : 'e' ∉ cs) : ∀ c ∈ cs, decide (c ≠ 'e') = true :=
  fun _ hc => decide_eq_true fun he => h (he ▸ hc)

/-- Without an exponent the digits spell their own number. -/
theorem spelledScaled_eq_spelled {cs : List Char} (h : 'e' ∉ cs) : spelledScaled cs = spelled cs := by
  rw [spelledScaled, List.takeWhile_eq_self_iff.mpr (forall_ne_of_notMem h),
    List.dropWhile_eq_nil_iff.mpr (forall_ne_of_notMem h)]
  simp [spelledExponent]

/-- Digits in front of an exponent spell their number times a power of ten. -/
theorem spelledScaled_exponent {cs : List Char} (h : 'e' ∉ cs) (z : ℤ) :
    spelledScaled (cs ++ 'e' :: (if z < 0 then '-' else '+') :: digits z.natAbs) =
      spelled cs * 10 ^ z := by
  have hexponent : spelledExponent ('e' :: (if z < 0 then '-' else '+') :: digits z.natAbs) = z := by
    split
    · rw [spelledExponent, ofDigits_digits]
      omega
    · rw [spelledExponent, ofDigits_digits]
      omega
  rw [spelledScaled, List.takeWhile_append_of_pos (forall_ne_of_notMem h),
    List.dropWhile_append_of_pos (forall_ne_of_notMem h), List.takeWhile_cons_of_neg (by decide),
    List.dropWhile_cons_of_neg (by decide), List.append_nil, hexponent]

/-- The scientific text of digits spells them with the point behind the first one, times the
power of ten. -/
theorem spelledScaled_scientific {ds : List Char} (hne : ds ≠ [])
    (h : ∀ c ∈ ds, isDigit c = true) (lead : ℤ) :
    spelledScaled (scientific ds lead) = ofDigits ds * 10 ^ (lead + 1 - ds.length) := by
  have hplain : ∀ {cs : List Char}, (∀ c ∈ cs, isDigit c = true) → 'e' ∉ cs :=
    fun hcs hmem => absurd (hcs 'e' hmem) (by decide)
  obtain ⟨d, rest, rfl⟩ := List.exists_cons_of_ne_nil hne
  have hd : isDigit d = true := h d List.mem_cons_self
  cases rest with
  | nil =>
    rw [scientific, spelledScaled_exponent (hplain h), spelled_digits h]
    simp
  | cons c more =>
    have hmore : ∀ x ∈ c :: more, isDigit x = true := fun x hx => h x (List.mem_cons_of_mem d hx)
    have hfront : ∀ x ∈ [d], isDigit x = true := List.forall_mem_singleton.mpr hd
    have hpoint : 'e' ∉ [d] ++ '.' :: c :: more := by
      intro hmem
      rcases List.mem_append.mp hmem with hmem | hmem
      · exact hplain hfront hmem
      · rcases List.mem_cons.mp hmem with hmem | hmem
        · exact absurd hmem (by decide)
        · exact hplain hmore hmem
    have hlength : lead + 1 - ((d :: c :: more).length : ℤ) = lead - ((c :: more).length : ℤ) := by
      simp only [List.length_cons]
      push_cast
      ring
    have hscientific : scientific (d :: c :: more) lead = ([d] ++ '.' :: c :: more) ++
        'e' :: (if lead < 0 then '-' else '+') :: digits lead.natAbs := rfl
    rw [hscientific, spelledScaled_exponent hpoint, spelled_point hfront hmore,
      List.singleton_append, hlength, zpow_sub₀ (by norm_num), zpow_natCast]
    ring

/-- A point and a zero behind a positional text without a point do not change its number. -/
theorem spelled_positional_point {ds : List Char} (h : ∀ c ∈ ds, isDigit c = true) {e : ℤ}
    (he : 0 ≤ e) : spelled (positional ds e ++ ['.', '0']) = ofDigits ds * 10 ^ e := by
  obtain ⟨k, rfl⟩ := Int.eq_ofNat_of_zero_le he
  have hfront : ∀ c ∈ ds ++ List.replicate k '0', isDigit c = true := by
    intro c hc
    rcases List.mem_append.mp hc with hc | hc
    · exact h c hc
    · exact isDigit_of_mem_zeros hc
  have hback : ∀ c ∈ ['0'], isDigit c = true := List.forall_mem_singleton.mpr rfl
  have hzeros : ds ++ List.replicate k '0' ++ ['0'] = ds ++ List.replicate (k + 1) '0' := by
    rw [List.append_assoc, ← List.replicate_succ']
  rw [positional, if_pos he, Int.toNat_natCast, spelled_point hfront hback, hzeros,
    ofDigits_append_zeros, zpow_natCast]
  push_cast
  rw [List.length_singleton, pow_succ]
  ring

end Decimal

namespace Binary64

open Decimal

/-- The text of a finite magnitude in the form of JSON texts. -/
def jsonMagnitude (x : Binary64) : List Char :=
  if x.isZero then ['0', '.', '0']
  else
    let s := shortest .toEven x
    let ds := digits s.digits
    let lead := s.exponent + ds.length - 1
    if -5 ≤ lead ∧ lead ≤ 15 then
      positional ds s.exponent ++ if 0 ≤ s.exponent then ['.', '0'] else []
    else scientific ds lead

/-- The text of a finite number is that of its magnitude behind the sign. -/
theorem jsonText?_eq {x : Binary64} (h : x.isFinite = true) :
    x.jsonText? = some (x.withSign x.jsonMagnitude) := by
  rw [jsonText?, jsonMagnitude, if_neg (by simp [h])]
  split
  · rfl
  · dsimp only
    split <;> rfl

/-- The text of a finite magnitude in the form of JSON texts spells a number that stands for it. -/
theorem standsFor_jsonMagnitude (x : Binary64) : StandsFor (spelledScaled x.jsonMagnitude) x := by
  unfold jsonMagnitude
  cases hzero : x.isZero with
  | true =>
    refine .inl ⟨hzero, ?_⟩
    have hdigit : ∀ c ∈ ['0'], isDigit c = true := List.forall_mem_singleton.mpr rfl
    have hpoint := spelled_point hdigit hdigit
    have hnone : ofDigits (['0'] ++ ['0']) = 0 := by decide
    rw [hnone, Nat.cast_zero, zero_div] at hpoint
    rw [if_pos rfl, spelledScaled_eq_spelled (by decide)]
    exact hpoint
  | false =>
    refine .inr ⟨hzero, ?_⟩
    have hholds := holds_shortest .toEven (significand_pos hzero)
    generalize shortest .toEven x = s at hholds
    have hdigits := isDigit_of_mem_digits s.digits
    have hplain : 'e' ∉ positional (digits s.digits) s.exponent :=
      fun hmem => absurd (mem_positional hdigits hmem) (by decide)
    have hvalue : (ofDigits (digits s.digits) : ℚ) * 10 ^ s.exponent = s.value := by
      rw [ofDigits_digits, Scaled.value]
    rw [if_neg (by simp)]
    dsimp only
    split
    · split
      · next hpoint =>
        have hmem : 'e' ∉ positional (digits s.digits) s.exponent ++ ['.', '0'] := by
          rw [List.mem_append, not_or]
          exact ⟨hplain, by decide⟩
        rwa [spelledScaled_eq_spelled hmem, spelled_positional_point hdigits hpoint, hvalue]
      · rwa [List.append_nil, spelledScaled_eq_spelled hplain, spelled_positional hdigits, hvalue]
    · have hlead : s.exponent + (digits s.digits).length - 1 + 1 - (digits s.digits).length =
          s.exponent := by ring
      rwa [spelledScaled_scientific (digits_ne_nil _) hdigits, hlead, hvalue]

/-- The text of a finite magnitude in the form of JSON texts starts with a digit. -/
theorem exists_digit_of_jsonMagnitude (x : Binary64) :
    ∃ c rest, x.jsonMagnitude = c :: rest ∧ isDigit c = true := by
  unfold jsonMagnitude
  split
  · exact ⟨'0', _, rfl, by decide⟩
  · dsimp only
    generalize shortest .toEven x = s
    split
    · obtain ⟨c, rest, htext, hc⟩ := exists_digit_of_positional (digits_ne_nil s.digits)
        (isDigit_of_mem_digits _) s.exponent
      rw [htext, List.cons_append]
      exact ⟨c, _, rfl, hc⟩
    · obtain ⟨c, ds, hdigits, hc⟩ := exists_digit_of_digits s.digits
      rw [hdigits]
      cases ds with
      | nil => exact ⟨c, _, rfl, hc⟩
      | cons d more => exact ⟨c, _, rfl, hc⟩

/-- The text of a finite number in the form of JSON texts tells it. -/
theorem jsonText?_injective {x y : Binary64} (hx : x.isFinite = true) (hy : y.isFinite = true)
    (h : x.jsonText? = y.jsonText?) : x = y := by
  have hplain : ∀ z : Binary64, z.jsonMagnitude.head? ≠ some '-' := by
    intro z hz
    obtain ⟨c, rest, htext, hc⟩ := z.exists_digit_of_jsonMagnitude
    rw [htext, List.head?_cons] at hz
    obtain rfl := Option.some.inj hz
    exact absurd hc (by decide)
  rw [jsonText?_eq hx, jsonText?_eq hy] at h
  obtain ⟨hsign, htext⟩ := withSign_injective (hplain x) (hplain y) (Option.some.inj h)
  have hspelled := standsFor_jsonMagnitude y
  rw [← htext] at hspelled
  exact eq_of_magnitudeBits hsign ((standsFor_jsonMagnitude x).magnitudeBits_eq hspelled)

end Binary64

end FlowTally
