import FlowTally.Decimal.Binary64

/-!
# Shortest decimals

A finite magnitude is shown by the shortest decimal that reads back as it. Every
real number between the midpoints to the neighbouring magnitudes reads back, and
the midpoints themselves do exactly when the significand is even. On a decimal
grid only the two points around the value need a test; the coarsest grid with a
hit wins, of two hits the nearer, and a tie is the caller's choice.
-/

namespace FlowTally.Decimal

/-- A decimal number: `digits` times ten to the power `exponent`. -/
structure Scaled where
  /-- The significant digits. -/
  digits : Nat
  /-- The power of ten of the last digit. -/
  exponent : Int
deriving DecidableEq, Repr

/-- Which of two equally near decimals is taken. -/
inductive Tie where
  /-- The one whose last digit is even. -/
  | toEven
  /-- The larger one. -/
  | up
deriving DecidableEq, Repr

/-- The reals that round to one magnitude, in units of a quarter of its last
place; `value` is the magnitude itself. -/
structure Interval where
  /-- Lower end. -/
  low : Nat
  /-- The magnitude. -/
  value : Nat
  /-- Upper end. -/
  high : Nat
  /-- Whether the ends belong to it. -/
  closed : Bool
  /-- The power of two of the unit. -/
  unit : Int
deriving Repr

/-- The reals that round to a finite magnitude. Below a power of two the
neighbour is only half as far. -/
def interval (x : Binary64) : Interval :=
  let m := x.significand
  let gap := if m = 0x10000000000000 ∧ 0 < x.power then 1 else 2
  { low := 4 * m - gap, value := 4 * m, high := 4 * m + 2, closed := m % 2 = 0,
    unit := (x.power : Int) - 1076 }

/-- Numerator and denominator that turn units of `2 ^ unit` into steps of a grid
of `10 ^ place`. -/
def gridScale (unit place : Int) : Nat × Nat :=
  (Nat.pow 2 unit.toNat * Nat.pow 10 (-place).toNat,
    Nat.pow 2 (-unit).toNat * Nat.pow 10 place.toNat)

/-- Whether a grid point lies in an interval. -/
def Interval.contains (i : Interval) (place : Int) (point : Nat) : Bool :=
  let (num, den) := gridScale i.unit place
  if i.closed then i.low * num ≤ point * den && point * den ≤ i.high * num
  else i.low * num < point * den && point * den < i.high * num

/-- The point of a grid that reads back as the magnitude and is nearest to it. -/
def Interval.pick? (tie : Tie) (i : Interval) (place : Int) : Option Scaled :=
  let (num, den) := gridScale i.unit place
  let below := i.value * num / den
  let above := below + 1
  let choose (point : Nat) : Option Scaled := some ⟨point, place⟩
  match i.contains place below, i.contains place above with
  | false, false => none
  | true, false => choose below
  | false, true => choose above
  | true, true =>
    match compare (2 * (i.value * num % den)) den with
    | .lt => choose below
    | .gt => choose above
    | .eq => match tie with
      | .up => choose above
      | .toEven => choose (if below % 2 = 0 then below else above)

/-- The power of ten of the leading digit of a positive magnitude. -/
def leadingPlace (x : Binary64) : Int :=
  let b := (Nat.log2 x.significand : Int) + x.power - 1074
  let guess := (b * 30103).fdiv 100000
  let (num, den) := gridScale ((x.power : Int) - 1074) (guess + 1)
  if den ≤ x.significand * num then guess + 1 else guess

/-- All digits of a magnitude. -/
def exactDigits (x : Binary64) : Scaled :=
  if 1074 ≤ x.power then ⟨x.significand * Nat.pow 2 (x.power - 1074), 0⟩
  else ⟨x.significand * Nat.pow 5 (1074 - x.power), (x.power : Int) - 1074⟩

/-- Moves zeros at the end of the digits into the exponent. -/
def Scaled.normalize (s : Scaled) : Scaled :=
  if h : s.digits ≠ 0 ∧ s.digits % 10 = 0 then
    normalize ⟨s.digits / 10, s.exponent + 1⟩
  else s
termination_by s.digits
decreasing_by
  show s.digits / 10 < s.digits
  omega

/-- The shortest decimal that reads back as a finite positive magnitude. Seventeen
digits always suffice; all digits stand behind them so that the answer reads back
without that fact. -/
def shortest (tie : Tie) (x : Binary64) : Scaled :=
  let i := interval x
  let lead := leadingPlace x
  let grids := (List.range 17).map fun (n : Nat) => lead - (n : Int)
  ((grids.findSome? (i.pick? tie)).getD (exactDigits x)).normalize

end FlowTally.Decimal
