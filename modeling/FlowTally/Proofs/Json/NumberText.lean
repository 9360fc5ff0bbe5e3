import FlowTally.Json.Number
import FlowTally.Proofs.Decimal.Digits
import Mathlib.Algebra.Order.Field.Power
import Mathlib.Algebra.Order.Field.Rat
import Mathlib.Tactic.FieldSimp
import Mathlib.Tactic.Linarith
import Mathlib.Tactic.Positivity

/-!
# Written numbers read back by their parts

A number is written as digits, digits behind a point and an exponent, of which the last two may be
left out. The reader takes these parts off the front of a text and stops right behind them. The word
that it fills with the digits is worth no more than the number, since it leaves out digits but never
adds to them.
-/

namespace FlowTally.Json

open Decimal

/-- What may follow digits: no other digit. -/
def EndsDigits (rest : List Char) : Prop := ∀ c ∈ rest.head?, isDigit c = false

/-- What may follow a number: nothing that could belong to it. -/
def EndsNumber (rest : List Char) : Prop :=
  ∀ c ∈ rest.head?, isDigit c = false ∧ c ≠ '.' ∧ c ≠ 'e' ∧ c ≠ 'E'

/-- What ends a number ends its digits. -/
theorem EndsNumber.endsDigits {rest : List Char} (h : EndsNumber rest) : EndsDigits rest :=
  fun c hc => (h c hc).1

/-- A character that is no digit ends digits. -/
theorem endsDigits_cons {c : Char} (hc : isDigit c = false) (rest : List Char) :
    EndsDigits (c :: rest) :=
  fun _ hd => Option.some.inj hd ▸ hc

/-- Digits are taken up to where they end. -/
theorem spanDigits_append {ds rest : List Char} (hds : ∀ c ∈ ds, isDigit c = true)
    (hrest : EndsDigits rest) : spanDigits (ds ++ rest) = (ds, rest) := by
  have hstop : rest.takeWhile isDigit = [] ∧ rest.dropWhile isDigit = rest := by
    cases rest with
    | nil => exact ⟨rfl, rfl⟩
    | cons c cs =>
      have hc : isDigit c = false := hrest c rfl
      exact ⟨List.takeWhile_cons_of_neg (by simp [hc]), List.dropWhile_cons_of_neg (by simp [hc])⟩
  rw [spanDigits, List.takeWhile_append_of_pos hds, List.dropWhile_append_of_pos hds, hstop.1,
    hstop.2, List.append_nil]

/-- The digits of a number other than zero start with no zero. -/
theorem head_digits_ne {n : Nat} (hn : n ≠ 0) (rest : List Char) : digits n ≠ '0' :: rest := by
  intro h
  by_cases hten : 10 ≤ n
  · obtain ⟨c, ds, hdigits, hc, -⟩ := exists_head_digits hten
    exact hc (List.cons.inj (hdigits.symm.trans h)).1
  · have hzero : ∀ k < 10, digitChar k = '0' → k = 0 := by decide
    rw [digits, if_pos (by omega)] at h
    exact hn (hzero n (by omega) (List.cons.inj h).1)

/-- The parts of a written number: the digits in front of its point, those behind it, and its
exponent. Without digits behind it there is no point. -/
structure NumberParts where
  /-- The digits in front of the point. -/
  front : List Char
  /-- The digits behind the point. -/
  back : List Char
  /-- The exponent. -/
  exponent : Option Int

namespace NumberParts

/-- Digits behind their point. -/
def fractionText : List Char → List Char
  | [] => []
  | d :: ds => '.' :: d :: ds

/-- An exponent behind its letter, with its sign. -/
def exponentText : Option Int → List Char
  | none => []
  | some z => 'e' :: (if z < 0 then '-' else '+') :: digits z.natAbs

/-- The text of a number. -/
def text (p : NumberParts) : List Char :=
  p.front ++ (fractionText p.back ++ exponentText p.exponent)

/-- The number that is written. -/
def value (p : NumberParts) : ℚ :=
  ofDigits (p.front ++ p.back) / 10 ^ p.back.length * 10 ^ p.exponent.getD 0

/-- The digits are digits, there is one in front of the point, and no zero stands in front of
others. -/
structure Plain (p : NumberParts) : Prop where
  /-- There is a digit in front of the point. -/
  front_ne_nil : p.front ≠ []
  /-- The digits in front of the point are digits. -/
  isDigit_front : ∀ c ∈ p.front, isDigit c = true
  /-- The digits behind the point are digits. -/
  isDigit_back : ∀ c ∈ p.back, isDigit c = true
  /-- No zero stands in front of other digits. -/
  lead_ne : ∀ c rest, p.front ≠ '0' :: c :: rest

variable {p : NumberParts} {rest : List Char}

/-- The digits of a number are its integer part. -/
theorem Plain.integerPart? (h : p.Plain) (hrest : EndsDigits rest) :
    Json.integerPart? (p.front ++ rest) = some (p.front, rest) := by
  rw [Json.integerPart?, spanDigits_append h.isDigit_front hrest]
  split
  · next heq => exact absurd (Prod.mk.inj heq).1 h.front_ne_nil
  · next heq => exact absurd (Prod.mk.inj heq).1 (h.lead_ne _ _)
  · next heq => rw [(Prod.mk.inj heq).1, (Prod.mk.inj heq).2]

/-- Digits behind a point are the fraction. -/
theorem fractionPart?_append {ds : List Char} (hds : ∀ c ∈ ds, isDigit c = true)
    (hrest : EndsDigits rest) (hpoint : ∀ cs, rest ≠ '.' :: cs) :
    Json.fractionPart? (fractionText ds ++ rest) = some (ds, rest) := by
  cases ds with
  | nil =>
    rw [fractionText, List.nil_append]
    unfold fractionPart?
    split
    · next cs => exact absurd rfl (hpoint cs)
    · rfl
  | cons d ds =>
    rw [fractionText, List.cons_append, fractionPart?, spanDigits_append hds hrest]

/-- An exponent is read with its sign. -/
theorem exponentPart?_append (exponent : Option Int) (hrest : EndsNumber rest) :
    Json.exponentPart? (exponentText exponent ++ rest) = some (exponent, rest) := by
  cases exponent with
  | none =>
    rw [exponentText, List.nil_append]
    cases rest with
    | nil => rfl
    | cons c cs =>
      obtain ⟨-, -, hlower, hupper⟩ := hrest c rfl
      simp [exponentPart?, hlower, hupper]
  | some z =>
    have hspan := spanDigits_append (isDigit_of_mem_digits z.natAbs) hrest.endsDigits
    obtain ⟨c, ds, hdigits, -⟩ := exists_digit_of_digits z.natAbs
    rw [exponentText, List.cons_append, List.cons_append]
    have hvalue : ofDigits (c :: ds) = z.natAbs := by rw [← hdigits, ofDigits_digits]
    rw [hdigits] at hspan ⊢
    by_cases hz : z < 0
    · have hsigned : -(z.natAbs : ℤ) = z := by omega
      simp only [exponentPart?, true_or, if_true, if_pos hz, hspan, hvalue, hsigned]
    · have hsigned : (z.natAbs : ℤ) = z := by omega
      simp only [exponentPart?, true_or, if_true, if_neg hz, hspan, hvalue, hsigned,
        Bool.false_eq_true, if_false]

/-- The text of a number reads back as the number of its parts. -/
theorem Plain.read?_text (h : p.Plain) (negative : Bool) (hrest : EndsNumber rest) :
    Number.read? ((if negative then '-' :: p.text else p.text) ++ rest) =
      (Number.ofParts? negative p.front p.back p.exponent).map fun n => (n, rest) := by
  have hexponent : EndsDigits (exponentText p.exponent ++ rest) ∧
      ∀ cs, exponentText p.exponent ++ rest ≠ '.' :: cs := by
    cases p.exponent with
    | none =>
      refine ⟨hrest.endsDigits, ?_⟩
      rintro cs hcs
      rw [exponentText, List.nil_append] at hcs
      exact (hrest '.' (by rw [hcs]; rfl)).2.1 rfl
    | some z => exact ⟨endsDigits_cons (by decide) _, fun cs hcs => by cases hcs⟩
  have hfraction : EndsDigits (fractionText p.back ++ (exponentText p.exponent ++ rest)) := by
    cases p.back with
    | nil => exact hexponent.1
    | cons d ds => exact endsDigits_cons (by decide) _
  have hassoc : p.text ++ rest =
      p.front ++ (fractionText p.back ++ (exponentText p.exponent ++ rest)) := by
    rw [text, List.append_assoc, List.append_assoc]
  have hinteger := h.integerPart? hfraction
  have hback := fractionPart?_append h.isDigit_back hexponent.1 hexponent.2
  have hpower := exponentPart?_append p.exponent hrest
  rw [← hassoc] at hinteger
  cases negative with
  | true =>
    rw [if_pos rfl, List.cons_append]
    simp only [Number.read?, hinteger, hback, hpower, Option.bind_eq_bind, Option.bind_some]
    cases Number.ofParts? true p.front p.back p.exponent <;> rfl
  | false =>
    obtain ⟨c, more, hfront⟩ := List.exists_cons_of_ne_nil h.front_ne_nil
    have hc : c ≠ '-' := ne_of_isDigit (h.isDigit_front c (hfront ▸ List.mem_cons_self)) (by decide)
    obtain ⟨cs, htext⟩ : ∃ cs, p.text ++ rest = c :: cs := ⟨_, by rw [text, hfront]; rfl⟩
    rw [htext] at hinteger
    rw [if_neg Bool.false_ne_true, htext]
    simp only [Number.read?, List.cons.injEq, hc, false_and, imp_self, implies_true, hinteger,
      hback, hpower, Option.bind_eq_bind, Option.bind_some]
    cases Number.ofParts? false p.front p.back p.exponent <;> rfl

end NumberParts

/-- Digits that fit fill the word with their number. -/
theorem foldl_pushInteger {ds : List Char} {s : Nat} (e : Int)
    (h : s * 10 ^ ds.length + ofDigits ds < UInt64.size) :
    ds.foldl Scan.pushInteger ⟨s, e, false⟩ = ⟨s * 10 ^ ds.length + ofDigits ds, e, false⟩ := by
  induction ds generalizing s with
  | nil => simp [ofDigits]
  | cons d ds ih =>
    have hnext : s * 10 ^ (d :: ds).length + ofDigits (d :: ds) =
        (10 * s + (d.toNat - 48)) * 10 ^ ds.length + ofDigits ds := by
      rw [ofDigits_cons, List.length_cons]
      ring
    rw [hnext] at h ⊢
    have hfits : ¬UInt64.size ≤ 10 * s + (d.toNat - 48) := by
      have hpos : 0 < 10 ^ ds.length := Nat.pow_pos (by omega)
      have hle := Nat.le_mul_of_pos_right (10 * s + (d.toNat - 48)) hpos
      omega
    rw [List.foldl_cons, Scan.pushInteger]
    simp only [Bool.false_or, decide_eq_true_eq, if_neg hfits]
    exact ih h

/-- The digits of a word read back as that word. -/
theorem read?_digits {n : Nat} (h : n < UInt64.size) {rest : List Char} (hrest : EndsNumber rest) :
    Number.read? (digits n ++ rest) = some (.integer n, rest) := by
  have hfits : 0 * 10 ^ (digits n).length + ofDigits (digits n) < UInt64.size := by
    rwa [Nat.zero_mul, Nat.zero_add, ofDigits_digits]
  have hfold := foldl_pushInteger 0 hfits
  rw [Nat.zero_mul, Nat.zero_add, ofDigits_digits] at hfold
  have hplain : NumberParts.Plain ⟨digits n, [], none⟩ := by
    refine ⟨digits_ne_nil n, isDigit_of_mem_digits n, fun c hc => absurd hc List.not_mem_nil, ?_⟩
    intro c more (hdigits : digits n = '0' :: c :: more)
    by_cases hn : n = 0
    · rw [digits, if_pos (by omega)] at hdigits
      exact List.cons_ne_nil _ _ (List.cons.inj hdigits).2.symm
    · exact head_digits_ne hn _ hdigits
  have hread := hplain.read?_text false hrest
  simp only [NumberParts.text, NumberParts.fractionText, NumberParts.exponentText, List.append_nil,
    Bool.false_eq_true, if_false] at hread
  rw [hread]
  simp [Number.ofParts?, hfold]

/-- A full word takes no more digits. -/
theorem foldl_pushFraction_full (ds : List Char) (s : Nat) (e : Int) :
    ds.foldl Scan.pushFraction ⟨s, e, true⟩ = ⟨s, e, true⟩ := by
  induction ds with
  | nil => rfl
  | cons d ds ih =>
    rw [List.foldl_cons, Scan.pushFraction]
    simpa using ih

/-- Digits behind the point make the word worth no more than they are themselves. -/
theorem foldl_pushFraction_le (ds : List Char) {s : Nat} (hs : s < UInt64.size) (e : Int) :
    ∃ (s' : Nat) (e' : Int) (full : Bool),
      ds.foldl Scan.pushFraction ⟨s, e, false⟩ = ⟨s', e', full⟩ ∧ s' < UInt64.size ∧
        (s' : ℚ) * 10 ^ e' ≤ (s + ofDigits ds / 10 ^ ds.length) * 10 ^ e := by
  induction ds generalizing s e with
  | nil => exact ⟨s, e, false, rfl, hs, by simp [ofDigits]⟩
  | cons d ds ih =>
    rw [List.foldl_cons, Scan.pushFraction]
    simp only [Bool.false_or, decide_eq_true_eq]
    by_cases hfull : UInt64.size ≤ 10 * s + (d.toNat - 48)
    · rw [if_pos hfull, foldl_pushFraction_full]
      refine ⟨s, e, true, rfl, hs, ?_⟩
      refine mul_le_mul_of_nonneg_right ?_ (by positivity)
      exact le_add_of_nonneg_right (by positivity)
    · rw [if_neg hfull]
      obtain ⟨s', e', full, hfold, hs', hle⟩ := ih (not_le.mp hfull) (e - 1)
      refine ⟨s', e', full, hfold, hs', hle.trans_eq ?_⟩
      rw [ofDigits_cons, List.length_cons, zpow_sub₀ (by norm_num), zpow_one, pow_succ]
      push_cast
      field_simp
      ring

/-- A number with a point or an exponent is read as a word times a power of ten that is worth no
more than the number, if the digits in front of its point fit the word. -/
theorem exists_scale? {p : NumberParts} (hfits : ofDigits p.front < UInt64.size)
    (hpart : p.back ≠ [] ∨ p.exponent ≠ none) (negative : Bool) :
    ∃ (s : Nat) (e : Int), s < UInt64.size ∧ (s : ℚ) * 10 ^ e ≤ p.value ∧
      Number.ofParts? negative p.front p.back p.exponent =
        (scale? s e).map fun x => .float (if negative then x.neg else x) := by
  have hword : 0 * 10 ^ p.front.length + ofDigits p.front < UInt64.size := by
    rwa [Nat.zero_mul, Nat.zero_add]
  have hwhole := foldl_pushInteger 0 hword
  rw [Nat.zero_mul, Nat.zero_add] at hwhole
  obtain ⟨s, e, full, hfold, hs, hle⟩ := foldl_pushFraction_le p.back hfits 0
  refine ⟨s, e + p.exponent.getD 0, hs, ?_, ?_⟩
  · rw [NumberParts.value, zpow_add₀ (by norm_num), ← mul_assoc]
    refine mul_le_mul_of_nonneg_right (hle.trans_eq ?_) (by positivity)
    rw [ofDigits_append]
    push_cast
    field_simp
  · have hnot : ¬(p.back = [] ∧ p.exponent = none ∧ (!false) = true) := by
      rintro ⟨hback, hexponent, -⟩
      rcases hpart with h | h
      · exact h hback
      · exact h hexponent
    simp only [Number.ofParts?, hwhole, if_neg hnot, hfold]

end FlowTally.Json
