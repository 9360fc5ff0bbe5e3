import FlowTally.Address.Basic

/-!
# Truncation keeps the leading bits

Truncation to a length leaves the leading bits of an address as they are and clears the rest. So two
addresses of one family are truncated to the same address exactly if they agree on the bits that are
kept. A length of zero, or one that reaches the width of the family, keeps all bits.
-/

namespace FlowTally.Address

section

variable {width : Nat} {v w : BitVec width} {bits bits' : Nat}

/-- The number of leading bits that a length keeps of a word. -/
def keptLength (width bits : Nat) : Nat := if bits = 0 ∨ width ≤ bits then width else bits

/-- The first bits of a word in machine words, which have no difference below zero and no shift that
reaches the width. -/
def keepBits? (word : BitVec width) (bits : Nat) : Option (BitVec width) :=
  if bits = 0 ∨ width ≤ bits then some word
  else if bits ≤ width ∧ width - bits < width then
    some (word &&& (BitVec.allOnes width <<< (width - bits)))
  else none

/-- Machine words suffice to keep the first bits of a word. -/
theorem keepBits?_eq (word : BitVec width) (bits : Nat) :
    keepBits? word bits = some (keepBits word bits) := by
  unfold keepBits? keepBits
  by_cases hall : bits = 0 ∨ width ≤ bits
  · rw [if_pos hall, if_pos hall]
  · rw [if_neg hall, if_neg hall, if_pos (by omega)]

/-- A length that is zero or reaches the width keeps the word. -/
theorem keepBits_of_all (h : bits = 0 ∨ width ≤ bits) : keepBits w bits = w := if_pos h

/-- The bits of a truncated word are those of the word as far as they are kept. -/
theorem getMsbD_keepBits_eq (word : BitVec width) (bits i : Nat) :
    (keepBits word bits).getMsbD i = (decide (i < keptLength width bits) && word.getMsbD i) := by
  by_cases hall : bits = 0 ∨ width ≤ bits
  · rw [keepBits_of_all hall, keptLength, if_pos hall]
    by_cases hi : i < width
    · simp [hi]
    · simp [BitVec.getMsbD_of_ge word i (by omega)]
  · rw [getMsbD_keepBits word (by omega) (by omega), keptLength, if_neg hall]

/-- Two words are truncated alike exactly if they agree on the bits that are kept. -/
theorem keepBits_eq_iff :
    keepBits v bits = keepBits w bits ↔
      ∀ i < keptLength width bits, v.getMsbD i = w.getMsbD i := by
  constructor
  · intro h i hi
    have hbit := congrArg (BitVec.getMsbD · i) h
    simpa only [getMsbD_keepBits_eq, hi, decide_true, Bool.true_and] using hbit
  · intro h
    refine BitVec.eq_of_getMsbD_eq fun i _ => ?_
    rw [getMsbD_keepBits_eq, getMsbD_keepBits_eq]
    by_cases hi : i < keptLength width bits
    · rw [h i hi]
    · simp only [hi, decide_false, Bool.false_and]

/-- Truncating to one length and then to another is truncating to the smaller one. -/
theorem keepBits_min (hpos : 0 < bits) (hlt : bits < width) (hpos' : 0 < bits')
    (hlt' : bits' < width) : keepBits (keepBits w bits) bits' = keepBits w (min bits bits') := by
  refine BitVec.eq_of_getMsbD_eq fun i _ => ?_
  have hboth : (decide (i < bits') && decide (i < bits)) = decide (i < min bits bits') := by
    rw [← Bool.decide_and, decide_eq_decide]
    omega
  rw [getMsbD_keepBits _ hpos' hlt', getMsbD_keepBits _ hpos hlt,
    getMsbD_keepBits _ (by omega) (by omega), ← Bool.and_assoc, hboth]

end

/-- The number of bits of the addresses of a family. -/
def width : Address → Nat
  | .v4 _ => 32
  | .v6 _ => 128

/-- A bit of an address, counted from the leading one. -/
def leadingBit : Address → Nat → Bool
  | .v4 word, i => word.getMsbD i
  | .v6 word, i => word.getMsbD i

/-- Which of two lengths is for the family of an address. -/
def lengthOf (v4Bits v6Bits : UInt8) : Address → Nat
  | .v4 _ => v4Bits.toNat
  | .v6 _ => v6Bits.toNat

/-- The truncated address in machine words. -/
def truncate? (v4Bits v6Bits : UInt8) : Address → Option Address
  | .v4 word => (keepBits? word v4Bits.toNat).map .v4
  | .v6 word => (keepBits? word v6Bits.toNat).map .v6

section

variable (v4Bits v6Bits : UInt8) (a : Address)

/-- Machine words suffice to truncate an address. -/
theorem truncate?_eq : truncate? v4Bits v6Bits a = some (a.truncate v4Bits v6Bits) := by
  cases a with
  | v4 word => rw [truncate?, keepBits?_eq, Option.map_some, truncate]
  | v6 word => rw [truncate?, keepBits?_eq, Option.map_some, truncate]

/-- Truncation keeps the family. -/
theorem width_truncate : (a.truncate v4Bits v6Bits).width = a.width := by
  cases a with
  | v4 word => rfl
  | v6 word => rfl

variable {v4Bits v6Bits a}

/-- Only the length for the family of an address counts. -/
theorem truncate_congr {v4Bits' v6Bits' : UInt8}
    (h : a.lengthOf v4Bits v6Bits = a.lengthOf v4Bits' v6Bits') :
    a.truncate v4Bits v6Bits = a.truncate v4Bits' v6Bits' := by
  cases a with
  | v4 word => exact congrArg (fun n => Address.v4 (keepBits word n)) h
  | v6 word => exact congrArg (fun n => Address.v6 (keepBits word n)) h

/-- A length that is zero or reaches the width keeps the address. -/
theorem truncate_of_all (h : a.lengthOf v4Bits v6Bits = 0 ∨ a.width ≤ a.lengthOf v4Bits v6Bits) :
    a.truncate v4Bits v6Bits = a := by
  cases a with
  | v4 word => exact congrArg Address.v4 (keepBits_of_all h)
  | v6 word => exact congrArg Address.v6 (keepBits_of_all h)

/-- With a length in between the leading bits are those of the address and the others are clear. -/
theorem leadingBit_truncate (hpos : 0 < a.lengthOf v4Bits v6Bits)
    (hlt : a.lengthOf v4Bits v6Bits < a.width) (i : Nat) :
    (a.truncate v4Bits v6Bits).leadingBit i =
      (decide (i < a.lengthOf v4Bits v6Bits) && a.leadingBit i) := by
  cases a with
  | v4 word => exact getMsbD_keepBits word hpos hlt
  | v6 word => exact getMsbD_keepBits word hpos hlt

/-- Two addresses of one family are truncated alike exactly if they agree on the bits that are
kept. -/
theorem truncate_eq_iff {b : Address} (h : b.width = a.width) :
    a.truncate v4Bits v6Bits = b.truncate v4Bits v6Bits ↔
      ∀ i < keptLength a.width (a.lengthOf v4Bits v6Bits), a.leadingBit i = b.leadingBit i := by
  cases a with
  | v4 v =>
    cases b with
    | v4 w => exact (Address.v4.injEq _ _).to_iff.trans keepBits_eq_iff
    | v6 w => exact absurd h (by simp [width])
  | v6 v =>
    cases b with
    | v4 w => exact absurd h (by simp [width])
    | v6 w => exact (Address.v6.injEq _ _).to_iff.trans keepBits_eq_iff

/-- The smaller of two words is the smaller number. -/
theorem toNat_min (m n : UInt8) : (min m n).toNat = min m.toNat n.toNat := by
  rw [Std.min_eq_if, Std.min_eq_if, apply_ite UInt8.toNat]
  simp only [UInt8.le_iff_toNat_le]

/-- Truncating with lengths in between twice is truncating to the smaller length. -/
theorem truncate_min {v4Bits' v6Bits' : UInt8} (hpos : 0 < a.lengthOf v4Bits v6Bits)
    (hlt : a.lengthOf v4Bits v6Bits < a.width) (hpos' : 0 < a.lengthOf v4Bits' v6Bits')
    (hlt' : a.lengthOf v4Bits' v6Bits' < a.width) :
    (a.truncate v4Bits v6Bits).truncate v4Bits' v6Bits' =
      a.truncate (min v4Bits v4Bits') (min v6Bits v6Bits') := by
  cases a with
  | v4 word =>
    rw [truncate, truncate, truncate, toNat_min]
    exact congrArg Address.v4 (keepBits_min hpos hlt hpos' hlt')
  | v6 word =>
    rw [truncate, truncate, truncate, toNat_min]
    exact congrArg Address.v6 (keepBits_min hpos hlt hpos' hlt')

end

/-- Truncation is taking the leading bits. For every address and every two lengths the machine words
neither underflow nor shift by their width, the family stays and the length for the other family does
not count. A length that is zero or reaches the width keeps the address; with any other one the
leading bits stay as they are and the rest are clear. So two addresses of one family are truncated
alike exactly if they agree on the kept bits, truncating again changes nothing, and truncating to a
second length as well is truncating to the smaller of the two. -/
theorem truncate_takes_leading_bits (v4Bits v6Bits : UInt8) (a : Address) :
    let length := a.lengthOf v4Bits v6Bits
    truncate? v4Bits v6Bits a = some (a.truncate v4Bits v6Bits) ∧
    (a.truncate v4Bits v6Bits).width = a.width ∧
    (∀ v4Bits' v6Bits', a.lengthOf v4Bits' v6Bits' = length →
      a.truncate v4Bits' v6Bits' = a.truncate v4Bits v6Bits) ∧
    (length = 0 ∨ a.width ≤ length → a.truncate v4Bits v6Bits = a) ∧
    (0 < length → length < a.width → ∀ i,
      (a.truncate v4Bits v6Bits).leadingBit i = (decide (i < length) && a.leadingBit i)) ∧
    (∀ b : Address, b.width = a.width →
      (a.truncate v4Bits v6Bits = b.truncate v4Bits v6Bits ↔
        ∀ i < (if length = 0 ∨ a.width ≤ length then a.width else length),
          a.leadingBit i = b.leadingBit i)) ∧
    (a.truncate v4Bits v6Bits).truncate v4Bits v6Bits = a.truncate v4Bits v6Bits ∧
    ∀ v4Bits' v6Bits', 0 < length → length < a.width →
      0 < a.lengthOf v4Bits' v6Bits' → a.lengthOf v4Bits' v6Bits' < a.width →
      (a.truncate v4Bits v6Bits).truncate v4Bits' v6Bits' =
        a.truncate (min v4Bits v4Bits') (min v6Bits v6Bits') := by
  intro length
  refine ⟨truncate?_eq v4Bits v6Bits a, width_truncate v4Bits v6Bits a,
    fun _ _ hlength => truncate_congr hlength, truncate_of_all, leadingBit_truncate,
    fun b hb => truncate_eq_iff hb, truncate_truncate v4Bits v6Bits a, ?_⟩
  intro v4Bits' v6Bits' hpos hlt hpos' hlt'
  exact truncate_min hpos hlt hpos' hlt'

/-- Two hosts of one network of 24 bits are truncated alike, and truncating to 16 bits as well is
truncating to 16. A length of 200 for the other family changes nothing. -/
theorem truncate_twoHosts :
    (v4 0xc0a81121).truncate 24 200 = (v4 0xc0a811fe).truncate 24 200 ∧
      ((v4 0xc0a81121).truncate 24 200).truncate 16 0 = (v4 0xc0a81121).truncate 16 0 ∧
      (v4 0xc0a81121).truncate 24 0 = (v4 0xc0a81121).truncate 24 200 ∧
      (v4 0xc0a81121).truncate 24 200 = v4 0xc0a81100 := by
  obtain ⟨-, -, hother, -, -, hiff, -, hmin⟩ := truncate_takes_leading_bits 24 200 (v4 0xc0a81121)
  refine ⟨(hiff (v4 0xc0a811fe) rfl).mpr (by decide), ?_, hother 24 0 rfl, by decide⟩
  exact hmin 16 0 (by decide) (by decide) (by decide) (by decide)

end FlowTally.Address
