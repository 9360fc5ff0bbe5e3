/-!
# Network addresses

An address is a word of 32 or 128 bits. Addresses of the first family stand below
those of the second; within a family they are ordered as numbers. Truncation keeps
the leading bits of an address.
-/

namespace FlowTally

/-- A network address of one of the two families. -/
inductive Address where
  /-- An address of 32 bits. -/
  | v4 (word : BitVec 32)
  /-- An address of 128 bits. -/
  | v6 (word : BitVec 128)
deriving DecidableEq, Repr

namespace Address

/-- The address that stands for none. -/
def unspecified : Address := .v4 0

/-- Keeps the first `bits` bits of a word and clears the rest. A length of zero, or
one that reaches the width, keeps the whole word. -/
def keepBits {width : Nat} (word : BitVec width) (bits : Nat) : BitVec width :=
  if bits = 0 ∨ width ≤ bits then word
  else word &&& (BitVec.allOnes width <<< (width - bits))

/-- Truncates an address to the length given for its family. -/
def truncate (v4Bits v6Bits : UInt8) : Address → Address
  | .v4 word => .v4 (keepBits word v4Bits.toNat)
  | .v6 word => .v6 (keepBits word v6Bits.toNat)

/-- The order of addresses: the shorter family first, then as numbers. -/
def compareNumeric : Address → Address → Ordering
  | .v4 a, .v4 b => compare a.toNat b.toNat
  | .v6 a, .v6 b => compare a.toNat b.toNat
  | .v4 _, .v6 _ => .lt
  | .v6 _, .v4 _ => .gt

/-- A kept leading bit is the bit of the word, any other bit is clear. -/
theorem getMsbD_keepBits {width : Nat} (word : BitVec width) {bits i : Nat}
    (hpos : 0 < bits) (hlt : bits < width) :
    (keepBits word bits).getMsbD i = (decide (i < bits) && word.getMsbD i) := by
  rw [keepBits, if_neg (by omega)]
  by_cases hi : i < width
  · simp only [BitVec.getMsbD_and, BitVec.getMsbD_shiftLeft, BitVec.getMsbD_allOnes]
    by_cases hb : i < bits
    · simp [hb, show i + (width - bits) < width by omega]
    · simp [hb, show ¬ i + (width - bits) < width by omega]
  · have clear : ∀ w : BitVec width, w.getMsbD i = false := fun w =>
      BitVec.getMsbD_of_ge w i (by omega)
    simp [clear]

/-- Keeping leading bits twice is keeping them once. -/
@[simp] theorem keepBits_keepBits {width : Nat} (word : BitVec width) (bits : Nat) :
    keepBits (keepBits word bits) bits = keepBits word bits := by
  unfold keepBits
  split
  · rfl
  · rw [BitVec.and_assoc, BitVec.and_self]

/-- Truncating twice is truncating once. -/
@[simp] theorem truncate_truncate (v4Bits v6Bits : UInt8) (a : Address) :
    (a.truncate v4Bits v6Bits).truncate v4Bits v6Bits = a.truncate v4Bits v6Bits := by
  cases a with
  | v4 word => rw [truncate, truncate, keepBits_keepBits]
  | v6 word => rw [truncate, truncate, keepBits_keepBits]

end Address

end FlowTally
