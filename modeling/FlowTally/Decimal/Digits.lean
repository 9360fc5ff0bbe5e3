/-!
# Decimal digits

The digits of a natural number without leading zeros, the same padded to a width,
and the number that a run of digits spells.
-/

namespace FlowTally.Decimal

/-- The digit of a number below ten. -/
def digitChar (n : Nat) : Char := Char.ofNat (48 + n)

/-- Whether a character is a decimal digit. -/
def isDigit (c : Char) : Bool := 48 ≤ c.toNat && c.toNat ≤ 57

/-- The decimal digits of a number, without leading zeros. -/
def digits (n : Nat) : List Char :=
  if n < 10 then [digitChar n] else digits (n / 10) ++ [digitChar (n % 10)]

/-- The decimal digits of a number, with zeros in front up to a width. -/
def padded (width n : Nat) : List Char :=
  let ds := digits n
  List.replicate (width - ds.length) '0' ++ ds

/-- The number that a run of digits spells. -/
def ofDigits (ds : List Char) : Nat :=
  ds.foldl (fun n c => 10 * n + (c.toNat - 48)) 0

/-- The digits of an integer, with a minus sign in front of a negative one. -/
def signed (i : Int) : List Char :=
  if i < 0 then '-' :: digits i.natAbs else digits i.natAbs

theorem toNat_digitChar : ∀ n < 10, (digitChar n).toNat = 48 + n := by decide

/-- The digits of a number are never empty. -/
theorem digits_ne_nil (n : Nat) : digits n ≠ [] := by
  rw [digits]
  split <;> simp

/-- The digits of a number are decimal digits. -/
theorem isDigit_of_mem_digits (n : Nat) : ∀ c ∈ digits n, isDigit c = true := by
  induction n using Nat.strongRecOn with
  | ind n ih =>
    intro c hc
    rw [digits] at hc
    split at hc
    · next hn =>
      obtain rfl := List.mem_singleton.mp hc
      simp only [isDigit, toNat_digitChar n hn, Bool.and_eq_true, decide_eq_true_eq]
      omega
    · next hn =>
      rcases List.mem_append.mp hc with h | h
      · exact ih (n / 10) (by omega) c h
      · obtain rfl := List.mem_singleton.mp h
        simp only [isDigit, toNat_digitChar (n % 10) (by omega), Bool.and_eq_true,
          decide_eq_true_eq]
        omega

/-- The digits of a number spell that number. -/
theorem ofDigits_digits (n : Nat) : ofDigits (digits n) = n := by
  induction n using Nat.strongRecOn with
  | ind n ih =>
    rw [digits]
    split
    · next hn => simp [ofDigits, toNat_digitChar n hn]
    · next hn =>
      have front := ih (n / 10) (by omega)
      simp only [ofDigits, List.foldl_append, List.foldl_cons, List.foldl_nil] at front ⊢
      rw [front, toNat_digitChar (n % 10) (by omega)]
      omega

/-- Two numbers with the same digits are equal. -/
theorem digits_injective {m n : Nat} (h : digits m = digits n) : m = n := by
  rw [← ofDigits_digits m, h, ofDigits_digits]

end FlowTally.Decimal
