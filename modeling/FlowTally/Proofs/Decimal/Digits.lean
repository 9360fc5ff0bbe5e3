import FlowTally.Decimal.Digits
import Mathlib.Tactic.Ring

/-!
# Numbers and their digits

Digits that follow each other spell their numbers weighted by a power of ten, so zeros
in front add nothing. A number padded to a width is spelled by its padded digits, and
takes exactly that width if it is small enough.
-/

namespace FlowTally.Decimal

/-- Digits behind a number that was spelled so far. -/
theorem foldl_digits (ds : List Char) (n : Nat) :
    ds.foldl (fun n c => 10 * n + (c.toNat - 48)) n = n * 10 ^ ds.length + ofDigits ds := by
  induction ds generalizing n with
  | nil => simp [ofDigits]
  | cons d ds ih =>
    have hzero := ih (10 * 0 + (d.toNat - 48))
    rw [ofDigits, List.foldl_cons, List.foldl_cons, ih, hzero, List.length_cons]
    ring

/-- The digits of a number of more than one digit start with no zero. -/
theorem exists_head_digits {n : Nat} (h : 10 ≤ n) :
    ∃ c rest, digits n = c :: rest ∧ c ≠ '0' ∧ rest ≠ [] := by
  induction n using Nat.strongRecOn with
  | ind n ih =>
    have hsplit : digits n = digits (n / 10) ++ [digitChar (n % 10)] := by
      rw [digits, if_neg (by omega)]
    by_cases hten : 10 ≤ n / 10
    · obtain ⟨c, rest, hdigits, hc, -⟩ := ih (n / 10) (by omega) hten
      refine ⟨c, rest ++ [digitChar (n % 10)], by rw [hsplit, hdigits]; rfl, hc, ?_⟩
      exact List.append_ne_nil_of_right_ne_nil _ (List.cons_ne_nil _ _)
    · have hfirst : digits (n / 10) = [digitChar (n / 10)] := by rw [digits, if_pos (by omega)]
      have hzero : ∀ k < 10, digitChar k = '0' → k = 0 := by decide
      refine ⟨digitChar (n / 10), [digitChar (n % 10)], by rw [hsplit, hfirst]; rfl, ?_,
        List.cons_ne_nil _ _⟩
      intro hc
      have hquotient := hzero (n / 10) (by omega) hc
      omega

/-- The digits of a number start with a digit. -/
theorem exists_digit_of_digits (n : Nat) : ∃ c rest, digits n = c :: rest ∧ isDigit c = true := by
  obtain ⟨c, rest, hdigits⟩ := List.exists_cons_of_ne_nil (digits_ne_nil n)
  have hmem : c ∈ digits n := by
    rw [hdigits]
    exact List.mem_cons_self
  exact ⟨c, rest, hdigits, isDigit_of_mem_digits n c hmem⟩

/-- A digit is no other character. -/
theorem ne_of_isDigit {c d : Char} (hc : isDigit c = true) (hd : isDigit d = false) : c ≠ d := by
  rintro rfl
  rw [hc] at hd
  cases hd

/-- Digits in front of others count for a power of ten. -/
theorem ofDigits_append (cs ds : List Char) :
    ofDigits (cs ++ ds) = ofDigits cs * 10 ^ ds.length + ofDigits ds := by
  rw [ofDigits, List.foldl_append, ← ofDigits, foldl_digits]

/-- A digit in front of others counts for a power of ten. -/
theorem ofDigits_cons (d : Char) (ds : List Char) :
    ofDigits (d :: ds) = (d.toNat - 48) * 10 ^ ds.length + ofDigits ds := by
  rw [← List.singleton_append, ofDigits_append]
  simp [ofDigits]

/-- Digits spell a number below a power of ten. -/
theorem ofDigits_lt {ds : List Char} (h : ∀ c ∈ ds, isDigit c = true) :
    ofDigits ds < 10 ^ ds.length := by
  induction ds with
  | nil => decide
  | cons d ds ih =>
    obtain ⟨hd, hds⟩ := List.forall_mem_cons.mp h
    have hrest := ih hds
    simp only [isDigit, Bool.and_eq_true, decide_eq_true_eq] at hd
    have hle : (d.toNat - 48) * 10 ^ ds.length ≤ 9 * 10 ^ ds.length :=
      Nat.mul_le_mul_right _ (by omega)
    rw [ofDigits_cons, List.length_cons, Nat.pow_succ]
    omega

/-- Zeros spell zero. -/
theorem ofDigits_zeros (k : Nat) : ofDigits (List.replicate k '0') = 0 := by
  induction k with
  | zero => rfl
  | succ k ih =>
    rw [List.replicate_succ', ofDigits_append, ih, Nat.zero_mul, Nat.zero_add]
    rfl

/-- Zeros in front add nothing. -/
theorem ofDigits_zeros_append (k : Nat) (ds : List Char) :
    ofDigits (List.replicate k '0' ++ ds) = ofDigits ds := by
  rw [ofDigits_append, ofDigits_zeros, Nat.zero_mul, Nat.zero_add]

/-- Zeros behind multiply by a power of ten. -/
theorem ofDigits_append_zeros (k : Nat) (ds : List Char) :
    ofDigits (ds ++ List.replicate k '0') = ofDigits ds * 10 ^ k := by
  rw [ofDigits_append, ofDigits_zeros, Nat.add_zero, List.length_replicate]

/-- Padded digits spell their number. -/
theorem ofDigits_padded (width n : Nat) : ofDigits (padded width n) = n := by
  rw [padded, ofDigits_zeros_append, ofDigits_digits]

/-- Two numbers with the same padded digits are equal. -/
theorem padded_injective {width m n : Nat} (h : padded width m = padded width n) : m = n := by
  rw [← ofDigits_padded width m, h, ofDigits_padded]

/-- Padded digits are decimal digits. -/
theorem isDigit_of_mem_padded {width n : Nat} {c : Char} (h : c ∈ padded width n) :
    isDigit c = true := by
  rcases List.mem_append.mp h with h | h
  · rw [List.eq_of_mem_replicate h]
    decide
  · exact isDigit_of_mem_digits n c h

/-- A number below a power of ten has at most as many digits. -/
theorem length_digits_le {width n : Nat} (hwidth : 0 < width) (h : n < 10 ^ width) :
    (digits n).length ≤ width := by
  induction width generalizing n with
  | zero => omega
  | succ width ih =>
    rw [digits]
    split
    · rw [List.length_singleton]
      omega
    · next hten =>
      have hpos : 0 < width := by
        rcases Nat.eq_zero_or_pos width with rfl | hpos
        · omega
        · exact hpos
      have hquotient : n / 10 < 10 ^ width := by
        rw [Nat.div_lt_iff_lt_mul (by omega), ← Nat.pow_succ]
        exact h
      have hlength := ih hpos hquotient
      rw [List.length_append, List.length_singleton]
      omega

/-- Padded digits of a small number take exactly their width. -/
theorem length_padded {width n : Nat} (hwidth : 0 < width) (h : n < 10 ^ width) :
    (padded width n).length = width := by
  have hlength := length_digits_le hwidth h
  rw [padded, List.length_append, List.length_replicate]
  omega

/-- Padded digits of small numbers in front of other texts are told apart. -/
theorem padded_append_injective {width m n : Nat} {cs ds : List Char} (hwidth : 0 < width)
    (hm : m < 10 ^ width) (hn : n < 10 ^ width)
    (h : padded width m ++ cs = padded width n ++ ds) : m = n ∧ cs = ds := by
  have hlength : (padded width m).length = (padded width n).length := by
    rw [length_padded hwidth hm, length_padded hwidth hn]
  obtain ⟨hpadded, hrest⟩ := List.append_inj h hlength
  exact ⟨padded_injective hpadded, hrest⟩

/-- Padded digits start with a digit. -/
theorem exists_digit_of_padded (width n : Nat) :
    ∃ c rest, padded width n = c :: rest ∧ isDigit c = true := by
  have hne : padded width n ≠ [] := List.append_ne_nil_of_right_ne_nil _ (digits_ne_nil n)
  obtain ⟨c, rest, hpadded⟩ := List.exists_cons_of_ne_nil hne
  have hmem : c ∈ padded width n := by
    rw [hpadded]
    exact List.mem_cons_self
  exact ⟨c, rest, hpadded, isDigit_of_mem_padded hmem⟩

end FlowTally.Decimal
