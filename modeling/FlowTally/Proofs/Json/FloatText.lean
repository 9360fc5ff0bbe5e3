import FlowTally.Proofs.Decimal.JsonText
import FlowTally.Proofs.Json.Finite

/-!
# The text of a finite number is a number

A finite number is written with a point or an exponent, and its digits are worth no more than the
upper end of its interval. A word that takes no more than these digits can be scaled by the power of
ten that is left, since the interval of all but the six largest magnitudes ends far enough below the
range for three roundings. The texts of those six are read one by one. So what is read is a number,
though not always the one that was written: its last place may differ.
-/

namespace FlowTally

open Decimal Json

namespace Json.NumberParts

/-- The text of a number spells it. -/
theorem Plain.spelledScaled_text {p : NumberParts} (h : p.Plain) :
    spelledScaled p.text = p.value := by
  have hplain : ∀ {cs : List Char}, (∀ c ∈ cs, isDigit c = true) → 'e' ∉ cs :=
    fun hcs hmem => absurd (hcs 'e' hmem) (by decide)
  have hbody : 'e' ∉ p.front ++ fractionText p.back ∧
      spelled (p.front ++ fractionText p.back) =
        ofDigits (p.front ++ p.back) / 10 ^ p.back.length := by
    have hback := h.isDigit_back
    cases hcase : p.back with
    | nil =>
      rw [fractionText, List.append_nil, spelled_digits h.isDigit_front]
      exact ⟨hplain h.isDigit_front, by simp⟩
    | cons d ds =>
      rw [hcase] at hback
      rw [fractionText, spelled_point h.isDigit_front hback]
      refine ⟨?_, rfl⟩
      rw [List.mem_append, List.mem_cons, not_or, not_or]
      exact ⟨hplain h.isDigit_front, by decide, hplain hback⟩
  rw [text, ← List.append_assoc, value]
  cases p.exponent with
  | none =>
    rw [exponentText, List.append_nil, spelledScaled_eq_spelled hbody.1, hbody.2]
    simp
  | some z => rw [exponentText, spelledScaled_exponent hbody.1, hbody.2, Option.getD_some]

/-- Digits that start with no zero may be cut behind any of them. -/
theorem plain_take {n : Nat} (hn : n ≠ 0) (k : Nat) (exponent : Option Int) :
    Plain ⟨(digits n).take (k + 1), (digits n).drop (k + 1), exponent⟩ := by
  have hall := isDigit_of_mem_digits n
  have hlead := head_digits_ne hn
  obtain ⟨d, ds, hdigits⟩ := List.exists_cons_of_ne_nil (digits_ne_nil n)
  rw [hdigits] at hall hlead ⊢
  refine ⟨List.cons_ne_nil _ _, fun c hc => hall c (List.mem_of_mem_take hc),
    fun c hc => hall c (List.mem_of_mem_drop hc), fun c rest h => hlead ds ?_⟩
  rw [(List.cons.inj h).1]

/-- Zeros behind digits that start with no zero make a whole number. -/
theorem plain_append_zeros {n : Nat} (hn : n ≠ 0) (k : Nat) :
    Plain ⟨digits n ++ List.replicate k '0', ['0'], none⟩ := by
  have hlead := head_digits_ne hn
  refine ⟨List.append_ne_nil_of_left_ne_nil (digits_ne_nil n) _, fun c hc => ?_,
    List.forall_mem_singleton.mpr rfl, ?_⟩
  · exact (List.mem_append.mp hc).elim (isDigit_of_mem_digits n c) isDigit_of_mem_zeros
  · obtain ⟨d, ds, hdigits⟩ := List.exists_cons_of_ne_nil (digits_ne_nil n)
    intro c rest h
    rw [hdigits] at hlead h
    exact hlead ds (by rw [(List.cons.inj h).1])

/-- Zeros in front of digits make a fraction below one. -/
theorem plain_zeros_append (n k : Nat) :
    Plain ⟨['0'], List.replicate k '0' ++ digits n, none⟩ := by
  refine ⟨List.cons_ne_nil _ _, List.forall_mem_singleton.mpr rfl, fun c hc => ?_,
    fun c rest h => ?_⟩
  · exact (List.mem_append.mp hc).elim isDigit_of_mem_zeros (isDigit_of_mem_digits n c)
  · cases (List.cons.inj h).2

end Json.NumberParts

namespace Binary64

/-- The parts of the text of a finite magnitude in the form of JSON texts. -/
def jsonParts (x : Binary64) : NumberParts :=
  if x.isZero then ⟨['0'], ['0'], none⟩
  else
    let s := shortest .toEven x
    let ds := digits s.digits
    let lead := s.exponent + ds.length - 1
    if -5 ≤ lead ∧ lead ≤ 15 then
      if 0 ≤ s.exponent then ⟨ds ++ List.replicate s.exponent.toNat '0', ['0'], none⟩
      else if s.exponent.natAbs < ds.length then
        ⟨ds.take (ds.length - s.exponent.natAbs), ds.drop (ds.length - s.exponent.natAbs), none⟩
      else ⟨['0'], List.replicate (s.exponent.natAbs - ds.length) '0' ++ ds, none⟩
    else ⟨ds.take 1, ds.drop 1, some lead⟩

/-- Digits behind a point that are not none. -/
theorem fractionText_of_ne_nil {ds : List Char} (h : ds ≠ []) :
    NumberParts.fractionText ds = '.' :: ds := by
  obtain ⟨d, rest, rfl⟩ := List.exists_cons_of_ne_nil h
  rfl

/-- The text of a magnitude is that of its parts. -/
theorem text_jsonParts (x : Binary64) : x.jsonParts.text = x.jsonMagnitude := by
  unfold jsonParts jsonMagnitude
  split
  · rfl
  · dsimp only
    generalize hs : shortest .toEven x = s
    have hne := digits_ne_nil s.digits
    generalize digits s.digits = ds at hne ⊢
    split
    · unfold positional
      by_cases hexponent : 0 ≤ s.exponent
      · rw [if_pos hexponent, if_pos hexponent, if_pos hexponent]
        rfl
      · rw [if_neg hexponent, if_neg hexponent, if_neg hexponent, List.append_nil]
        dsimp only
        by_cases hplaces : s.exponent.natAbs < ds.length
        · have hback : ds.drop (ds.length - s.exponent.natAbs) ≠ [] := by
            rw [ne_eq, List.drop_eq_nil_iff]
            omega
          rw [if_pos hplaces, if_pos hplaces, NumberParts.text, fractionText_of_ne_nil hback]
          exact congrArg _ (List.append_nil _)
        · have hback : List.replicate (s.exponent.natAbs - ds.length) '0' ++ ds ≠ [] :=
            List.append_ne_nil_of_right_ne_nil _ hne
          rw [if_neg hplaces, if_neg hplaces, NumberParts.text, fractionText_of_ne_nil hback]
          exact congrArg _ (List.append_nil _)
    · obtain ⟨d, rest, rfl⟩ := List.exists_cons_of_ne_nil hne
      cases rest <;> rfl

/-- The shortest decimal of a positive magnitude is not zero. -/
theorem digits_shortest_ne_zero {x : Binary64} (h : x.isZero = false) :
    (shortest .toEven x).digits ≠ 0 := by
  intro hzero
  have hholds := holds_shortest .toEven (significand_pos h)
  rw [Scaled.value, hzero, Nat.cast_zero, zero_mul] at hholds
  exact not_holds_zero h hholds

/-- The parts of the text of a magnitude are digits with a plain lead. They have a point or an
exponent, and the digits in front of the point fit a word. -/
theorem plain_jsonParts (x : Binary64) :
    x.jsonParts.Plain ∧ (x.jsonParts.back ≠ [] ∨ x.jsonParts.exponent ≠ none) ∧
      x.jsonParts.front.length ≤ 16 := by
  have hzero : (['0'] : List Char) ≠ [] := List.cons_ne_nil _ _
  unfold jsonParts
  split
  · have hplain := NumberParts.plain_zeros_append 0 0
    rw [digits, if_pos (by omega)] at hplain
    exact ⟨hplain, .inl hzero, by decide⟩
  · next hpositive =>
    have hdigits := digits_shortest_ne_zero (Bool.eq_false_iff.mpr hpositive)
    dsimp only
    generalize shortest .toEven x = s at hdigits
    have hne := digits_ne_nil s.digits
    have hlength : 0 < (digits s.digits).length := List.length_pos_iff.mpr hne
    split
    · next hrange =>
      split
      · refine ⟨NumberParts.plain_append_zeros hdigits _, .inl hzero, ?_⟩
        rw [List.length_append, List.length_replicate]
        omega
      · split
        · next hplaces =>
          obtain ⟨k, hk⟩ : ∃ k, (digits s.digits).length - s.exponent.natAbs = k + 1 :=
            ⟨(digits s.digits).length - s.exponent.natAbs - 1, by omega⟩
          rw [hk]
          refine ⟨NumberParts.plain_take hdigits k none, .inl ?_, ?_⟩
          · rw [ne_eq, List.drop_eq_nil_iff]
            omega
          · rw [List.length_take]
            omega
        · exact ⟨NumberParts.plain_zeros_append _ _,
            .inl (List.append_ne_nil_of_right_ne_nil _ hne), Nat.le_add_left 1 15⟩
    · refine ⟨NumberParts.plain_take hdigits 0 _, .inr (Option.some_ne_none _), ?_⟩
      rw [List.length_take]
      omega

/-- The text of a magnitude is worth no more than the upper end of its interval. -/
theorem value_jsonParts_le (x : Binary64) :
    x.jsonParts.value ≤ (interval x).high * 2 ^ (interval x).unit := by
  have hstands := x.standsFor_jsonMagnitude
  rw [← text_jsonParts, x.plain_jsonParts.1.spelledScaled_text] at hstands
  rcases hstands with ⟨-, hvalue⟩ | ⟨-, hholds⟩
  · rw [hvalue]
    positivity
  · exact hholds.le_high

/-- The texts of all but the six largest magnitudes leave room for three roundings. -/
theorem value_jsonParts_lt {x : Binary64} (h : x.magnitudeBits < 0x7feffffffffffffa) :
    x.jsonParts.value * roundingFactor ^ 3 < 2 ^ 1024 := by
  let y : Binary64 := ⟨0x7feffffffffffffa⟩
  have hlow : (interval y).low = 2 ^ 55 - 26 := by decide
  have hpower : y.power = 2045 := by decide
  have hend : (interval x).high * 2 ^ x.power ≤ (2 ^ 55 - 26) * 2 ^ y.power := by
    rw [← hlow]
    exact (high_le_low (x := x) (y := y) h).elim Nat.le_of_lt fun hsame => hsame.1.le
  have hroom : ((2 ^ 55 - 26 : ℕ) : ℚ) * roundingFactor ^ 3 < 2 ^ 55 := by
    norm_num [roundingFactor]
  have hvalue : x.jsonParts.value ≤ ((2 ^ 55 - 26 : ℕ) : ℚ) * 2 ^ 969 := by
    calc x.jsonParts.value ≤ (((interval x).high * 2 ^ x.power : ℕ) : ℚ) * 2 ^ (-1076 : ℤ) :=
          x.value_jsonParts_le.trans_eq (end_eq x _)
      _ ≤ (((2 ^ 55 - 26) * 2 ^ y.power : ℕ) : ℚ) * 2 ^ (-1076 : ℤ) :=
          mul_le_mul_of_nonneg_right (Nat.cast_le.mpr hend) (by positivity)
      _ = ((2 ^ 55 - 26 : ℕ) : ℚ) * (2 ^ (2045 : ℤ) * 2 ^ (-1076 : ℤ)) := by
          rw [hpower, Nat.cast_mul, Nat.cast_pow, Nat.cast_ofNat, mul_assoc]
          rfl
      _ = ((2 ^ 55 - 26 : ℕ) : ℚ) * 2 ^ 969 := by
          rw [← zpow_add₀ two_ne_zero]
          rfl
  calc x.jsonParts.value * roundingFactor ^ 3
      ≤ ((2 ^ 55 - 26 : ℕ) : ℚ) * 2 ^ 969 * roundingFactor ^ 3 :=
        mul_le_mul_of_nonneg_right hvalue (by rw [roundingFactor]; positivity)
    _ = ((2 ^ 55 - 26 : ℕ) : ℚ) * roundingFactor ^ 3 * 2 ^ 969 := mul_right_comm _ _ _
    _ < 2 ^ 55 * 2 ^ 969 := mul_lt_mul_of_pos_right hroom (by positivity)
    _ = 2 ^ 1024 := (pow_add 2 55 969).symm

/-- The texts of the six largest magnitudes are numbers, with either sign. -/
theorem isSome_largest : ∀ k < 6, ∀ sign < 2,
    let x : Binary64 := ⟨UInt64.ofNat (sign * 0x8000000000000000 + (0x7fefffffffffffff - k))⟩
    (Number.ofParts? x.isNegative x.jsonParts.front x.jsonParts.back
      x.jsonParts.exponent).isSome = true := by
  decide +kernel

/-- The parts of the text of a finite number make a number. -/
theorem isSome_ofParts? {x : Binary64} (hx : x.isFinite = true) :
    (Number.ofParts? x.isNegative x.jsonParts.front x.jsonParts.back
      x.jsonParts.exponent).isSome = true := by
  rw [isFinite, infinityBits, decide_eq_true_eq] at hx
  by_cases hlarge : x.magnitudeBits < 0x7feffffffffffffa
  · obtain ⟨hplain, hpart, hlength⟩ := x.plain_jsonParts
    have hfits : ofDigits x.jsonParts.front < UInt64.size := by
      calc ofDigits x.jsonParts.front < 10 ^ x.jsonParts.front.length :=
            ofDigits_lt hplain.isDigit_front
        _ ≤ 10 ^ 16 := Nat.pow_le_pow_right (by omega) hlength
        _ < UInt64.size := by decide
    obtain ⟨s, e, hs, hworth, hparts⟩ := exists_scale? hfits hpart x.isNegative
    have hroom : (s : ℚ) * 10 ^ e * roundingFactor ^ 3 < 2 ^ 1024 := by
      refine lt_of_le_of_lt ?_ (value_jsonParts_lt hlarge)
      exact mul_le_mul_of_nonneg_right hworth (by rw [roundingFactor]; positivity)
    rw [hparts, Option.isSome_map]
    exact isSome_scale? hs hroom
  · have hbits := x.bits.toNat_lt
    rw [magnitudeBits] at hx hlarge
    have hword : x = ⟨UInt64.ofNat (x.bits.toNat / 0x8000000000000000 * 0x8000000000000000 +
        (0x7fefffffffffffff - (0x7fefffffffffffff - x.bits.toNat % 0x8000000000000000)))⟩ := by
      have hsum : x.bits.toNat / 0x8000000000000000 * 0x8000000000000000 +
          (0x7fefffffffffffff - (0x7fefffffffffffff - x.bits.toNat % 0x8000000000000000)) =
          x.bits.toNat := by omega
      rw [hsum, UInt64.ofNat_toNat]
    rw [hword]
    exact isSome_largest _ (by omega) _ (by omega)

/-- A finite number is printed as its sign and the text of its magnitude. -/
theorem printNumber_float {x : Binary64} (hx : x.isFinite = true) :
    printNumber (.float x) = if x.isNegative then '-' :: x.jsonParts.text else x.jsonParts.text := by
  rw [printNumber, jsonText?_eq hx, Option.getD_some, withSign, text_jsonParts]

/-- The text of a finite number reads back as a finite number. -/
theorem exists_readsAs_float {x : Binary64} (hx : x.isFinite = true) :
    ∃ n : Number, ReadsAs (.num (.float x)) (.num n) := by
  obtain ⟨hplain, -, -⟩ := x.plain_jsonParts
  obtain ⟨n, hparts⟩ := Option.isSome_iff_exists.mp (isSome_ofParts? hx)
  refine ⟨n, readsAs_num (fun rest hrest => ?_) ?_⟩
  · rw [printNumber_float hx, hplain.read?_text x.isNegative hrest, hparts, Option.map_some]
  · rw [printNumber_float hx]
    cases x.isNegative with
    | true => exact ⟨'-', _, rfl, .inr rfl⟩
    | false =>
      obtain ⟨c, rest, hfront⟩ := List.exists_cons_of_ne_nil hplain.front_ne_nil
      have hc := hplain.isDigit_front c (hfront ▸ List.mem_cons_self)
      have htext : x.jsonParts.text = c :: (rest ++ (NumberParts.fractionText x.jsonParts.back ++
          NumberParts.exponentText x.jsonParts.exponent)) := by
        rw [NumberParts.text, hfront, List.cons_append]
      exact ⟨c, _, htext, .inl hc⟩

end Binary64

end FlowTally
