/-!
# Binary floating-point numbers

A number in the 64-bit binary interchange format is kept as its bits, so that
equality, the total order and the text of a number are statements about a word.
The arithmetic is that of the format, with one rule for each invalid result: a
NaN operand is passed on quieted, the first one first, and any other invalid
operation gives the default NaN.
-/

namespace FlowTally

/-- A 64-bit binary floating-point number. -/
structure Binary64 where
  /-- Sign, exponent field and fraction, from the highest bit down. -/
  bits : UInt64
deriving DecidableEq, Repr

namespace Binary64

/-- Whether the sign bit is set. -/
def isNegative (x : Binary64) : Bool := 0x8000000000000000 ≤ x.bits.toNat

/-- The bits below the sign. -/
def magnitudeBits (x : Binary64) : Nat := x.bits.toNat % 0x8000000000000000

/-- The bits of infinity. -/
def infinityBits : Nat := 0x7ff0000000000000

/-- Whether the word is not a number. -/
def isNaN (x : Binary64) : Bool := infinityBits < x.magnitudeBits

/-- Whether the number is one of the two infinities. -/
def isInfinite (x : Binary64) : Bool := x.magnitudeBits == infinityBits

/-- Whether the number is one of the two zeros. -/
def isZero (x : Binary64) : Bool := x.magnitudeBits == 0

/-- Whether the number is neither infinite nor a NaN. -/
def isFinite (x : Binary64) : Bool := x.magnitudeBits < infinityBits

/-- The positive zero. -/
def zero : Binary64 := ⟨0⟩

/-- The NaN that an invalid operation gives. -/
def defaultNaN : Binary64 := ⟨0xfff8000000000000⟩

/-- A NaN with its quiet bit set. -/
def quiet (x : Binary64) : Binary64 := ⟨x.bits ||| 0x0008000000000000⟩

/-- The number as the machine's floating-point value. -/
def toFloat (x : Binary64) : Float := Float.ofBits x.bits

/-- The number of a machine floating-point result; an invalid one is the default NaN. -/
def ofFloat (f : Float) : Binary64 :=
  if f.isNaN then defaultNaN else ⟨f.toBits⟩

/-- Nearest number to an unsigned word, ties to even. -/
def ofUInt64 (n : UInt64) : Binary64 := ofFloat n.toFloat

/-- Applies an operation of the format to two operands. -/
def lift₂ (op : Float → Float → Float) (x y : Binary64) : Binary64 :=
  if x.isNaN then x.quiet
  else if y.isNaN then y.quiet
  else ofFloat (op x.toFloat y.toFloat)

/-- Sum, rounded to nearest. -/
def add (x y : Binary64) : Binary64 := lift₂ (· + ·) x y

/-- Product, rounded to nearest. -/
def mul (x y : Binary64) : Binary64 := lift₂ (· * ·) x y

/-- Quotient, rounded to nearest. -/
def div (x y : Binary64) : Binary64 := lift₂ (· / ·) x y

/-- The number with its sign bit turned over. -/
def neg (x : Binary64) : Binary64 := ⟨x.bits ^^^ 0x8000000000000000⟩

/-- Position of a number in the total order of all words: negative words below
positive ones, and larger magnitudes further from zero. -/
def orderKey (x : Binary64) : Int :=
  if x.isNegative then -(x.magnitudeBits : Int) - 1 else x.magnitudeBits

/-- Position of a number on the real line, with both zeros at one place. -/
def lineKey (x : Binary64) : Int :=
  if x.isNegative then -(x.magnitudeBits : Int) else x.magnitudeBits

/-- Whether one number is below another. No NaN is below or above anything. -/
def isBelow (x y : Binary64) : Bool :=
  !x.isNaN && !y.isNaN && decide (x.lineKey < y.lineKey)

/-- The smaller number. A NaN is ignored, and of two equal numbers, such as the two zeros,
the second is taken. -/
def min (x y : Binary64) : Binary64 :=
  if x.isNaN then y else if y.isNaN || x.isBelow y then x else y

/-- The larger number. A NaN is ignored, and of two equal numbers, such as the two zeros,
the second is taken. -/
def max (x y : Binary64) : Binary64 :=
  if x.isNaN then y else if y.isNaN || y.isBelow x then x else y

/-- The total order, as a comparison. -/
def totalCompare (x y : Binary64) : Ordering := compare x.orderKey y.orderKey

/-- Integer significand and power of two of a finite magnitude: the magnitude is
`significand * 2 ^ (power - 1074)`. -/
def significand (x : Binary64) : Nat :=
  if x.magnitudeBits < 0x10000000000000 then x.magnitudeBits
  else x.magnitudeBits % 0x10000000000000 + 0x10000000000000

/-- The power of two above the smallest one that scales the significand. -/
def power (x : Binary64) : Nat := x.magnitudeBits / 0x10000000000000 - 1

/-- The place in the total order tells the word. -/
theorem orderKey_injective {x y : Binary64} (h : x.orderKey = y.orderKey) : x = y := by
  have hx : x.bits.toNat < 2 ^ 64 := x.bits.toNat_lt
  have hy : y.bits.toNat < 2 ^ 64 := y.bits.toNat_lt
  have hbits : x.bits.toNat = y.bits.toNat := by
    by_cases nx : 0x8000000000000000 ≤ x.bits.toNat <;>
      by_cases ny : 0x8000000000000000 ≤ y.bits.toNat <;>
      simp only [orderKey, isNegative, magnitudeBits, nx, ny, decide_true, decide_false,
        if_true, Bool.false_eq_true, if_false] at h <;> omega
  cases x
  cases y
  simpa using UInt64.toNat_inj.mp hbits

end Binary64

end FlowTally
