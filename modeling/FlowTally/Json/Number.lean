import FlowTally.Decimal.Digits
import FlowTally.Json.Basic

/-!
# Reading JSON numbers

The significant digits of a number fill a 64-bit word; digits that no longer fit
count only as places. An integer that fits stays an integer. Any other number is
the word times a power of ten, found by one floating-point multiplication or
division with a tabled power, so it can differ from the nearest number in its last
place.
-/

namespace FlowTally.Json

open Decimal

/-- A run of digits and what follows it. -/
def spanDigits (cs : List Char) : List Char × List Char :=
  (cs.takeWhile isDigit, cs.dropWhile isDigit)

/-- The digits read so far: a word, the power of ten of its last digit, and whether
a digit has already been left out. -/
structure Scan where
  /-- The digits that were kept. -/
  significand : Nat
  /-- The power of ten of the last kept digit. -/
  exponent : Int
  /-- Whether the word is full. -/
  full : Bool
deriving Repr

/-- Keeps a digit in front of the point, or counts it as a place. -/
def Scan.pushInteger (s : Scan) (c : Char) : Scan :=
  let next := 10 * s.significand + (c.toNat - 48)
  if s.full || UInt64.size ≤ next then { s with exponent := s.exponent + 1, full := true }
  else { s with significand := next }

/-- Keeps a digit behind the point, or leaves it out. -/
def Scan.pushFraction (s : Scan) (c : Char) : Scan :=
  let next := 10 * s.significand + (c.toNat - 48)
  if s.full || UInt64.size ≤ next then { s with full := true }
  else { s with significand := next, exponent := s.exponent - 1 }

/-- The floating-point number nearest to a power of ten. -/
def powerOfTen (k : Nat) : Float := Float.ofScientific 1 false k

/-- Divides by a power of ten, at most 308 places at a time. -/
def shrink (f : Float) (places : Nat) : Float :=
  if places ≤ 308 then f / powerOfTen places
  else if f == 0 then f
  else shrink (f / powerOfTen 308) (places - 308)
termination_by places

/-- A word times a power of ten, or `none` where that is out of range. -/
def scale? (significand : Nat) (exponent : Int) : Option Binary64 :=
  let f := (UInt64.ofNat significand).toFloat
  if exponent < 0 then some (.ofFloat (shrink f exponent.natAbs))
  else if exponent ≤ 308 then
    let product := f * powerOfTen exponent.toNat
    if product.isInf then none else some (.ofFloat product)
  else if significand = 0 then some .zero
  else none

/-- The integer part: a zero alone, or digits that start with no zero. -/
def integerPart? (cs : List Char) : Option (List Char × List Char) :=
  match spanDigits cs with
  | ([], _) => none
  | ('0' :: _ :: _, _) => none
  | (ds, rest) => some (ds, rest)

/-- The digits behind a point, none if there is no point. -/
def fractionPart? : List Char → Option (List Char × List Char)
  | '.' :: cs =>
    match spanDigits cs with
    | ([], _) => none
    | (ds, rest) => some (ds, rest)
  | cs => some ([], cs)

/-- The exponent, `none` inside if there is none. -/
def exponentPart? : List Char → Option (Option Int × List Char)
  | c :: cs =>
    if c = 'e' ∨ c = 'E' then
      let (negative, ds) := match cs with
        | '+' :: ds => (false, ds)
        | '-' :: ds => (true, ds)
        | ds => (false, ds)
      match spanDigits ds with
      | ([], _) => none
      | (ds, rest) =>
        let e : Int := ofDigits ds
        some (some (if negative then -e else e), rest)
    else some (none, c :: cs)
  | [] => some (none, [])

/-- The number with the given digits. An integer with a minus sign stays one from
`-1` to `-2 ^ 63`. -/
def Number.ofParts? (negative : Bool) (front back : List Char) (exponent : Option Int) :
    Option Number :=
  let whole := front.foldl Scan.pushInteger ⟨0, 0, false⟩
  let sign (x : Binary64) : Binary64 := if negative then x.neg else x
  if back = [] ∧ exponent = none ∧ !whole.full then
    if !negative then some (.integer whole.significand)
    else if 0 < whole.significand ∧ whole.significand ≤ 0x8000000000000000 then
      some (.integer (-(whole.significand : Int)))
    else some (.float (sign (.ofUInt64 (UInt64.ofNat whole.significand))))
  else
    let all := back.foldl Scan.pushFraction { whole with full := false }
    (scale? all.significand (all.exponent + exponent.getD 0)).map fun x => .float (sign x)

/-- Reads a number from the front of a text. -/
def Number.read? (cs : List Char) : Option (Number × List Char) := do
  let (negative, cs) := match cs with
    | '-' :: rest => (true, rest)
    | cs => (false, cs)
  let (front, cs) ← integerPart? cs
  let (back, cs) ← fractionPart? cs
  let (exponent, cs) ← exponentPart? cs
  let n ← Number.ofParts? negative front back exponent
  some (n, cs)

end FlowTally.Json
