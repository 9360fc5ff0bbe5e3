import FlowTally.Decimal.Digits
import FlowTally.Decimal.Shortest

/-!
# Written forms of floating-point numbers

Three written forms: positional without an exponent, as group keys need it; the
form of JSON texts, which turns to an exponent far from one; and a fixed number of
places, as the result table shows it.
-/

namespace FlowTally

namespace Decimal

/-- Digits with the point put in, or zeros filled up, as the exponent says. -/
def positional (ds : List Char) (exponent : Int) : List Char :=
  if 0 ≤ exponent then ds ++ List.replicate exponent.toNat '0'
  else
    let places := exponent.natAbs
    if places < ds.length then
      ds.take (ds.length - places) ++ '.' :: ds.drop (ds.length - places)
    else '0' :: '.' :: List.replicate (places - ds.length) '0' ++ ds

/-- Digits with the point behind the first one, and the exponent with its sign. -/
def scientific (ds : List Char) (lead : Int) : List Char :=
  let mantissa := match ds with
    | [] => []
    | [d] => [d]
    | d :: rest => d :: '.' :: rest
  mantissa ++ 'e' :: (if lead < 0 then '-' else '+') :: digits lead.natAbs

/-- Nearest natural number to a quotient, a half going to the even neighbour. -/
def roundDiv (num den : Nat) : Nat :=
  let q := num / den
  match compare (2 * (num % den)) den with
  | .lt => q
  | .gt => q + 1
  | .eq => if q % 2 = 0 then q else q + 1

end Decimal

namespace Binary64

open Decimal

/-- Writes the sign of a number in front of the text of its magnitude. -/
def withSign (x : Binary64) (text : List Char) : List Char :=
  if x.isNegative then '-' :: text else text

/-- The shortest digits that read back, never with an exponent. Ties go up. -/
def plainText (x : Binary64) : List Char :=
  if x.isNaN then ['N', 'a', 'N']
  else if x.isInfinite then x.withSign ['i', 'n', 'f']
  else if x.isZero then x.withSign ['0']
  else
    let s := shortest .up x
    x.withSign (positional (digits s.digits) s.exponent)

/-- The form of JSON texts: the shortest digits that read back, ties to even, with
a point or an exponent in every case, and positional for leading digits from the
fifth place behind the point to the sixteenth before it. Only finite numbers have
this form. -/
def jsonText? (x : Binary64) : Option (List Char) :=
  if !x.isFinite then none
  else if x.isZero then some (x.withSign ['0', '.', '0'])
  else
    let s := shortest .toEven x
    let ds := digits s.digits
    let lead := s.exponent + ds.length - 1
    if -5 ≤ lead ∧ lead ≤ 15 then
      let point := if 0 ≤ s.exponent then ['.', '0'] else []
      some (x.withSign (positional ds s.exponent ++ point))
    else some (x.withSign (scientific ds lead))

/-- A fixed number of places behind the point, the exact value rounded to nearest
and a half to the even digit. The sign stays in front of a zero. -/
def fixedText (places : Nat) (x : Binary64) : List Char :=
  if x.isNaN then ['N', 'a', 'N']
  else if x.isInfinite then x.withSign ['i', 'n', 'f']
  else
    let r := roundDiv (x.significand * Nat.pow 2 x.power * Nat.pow 10 places) (Nat.pow 2 1074)
    x.withSign (digits (r / Nat.pow 10 places) ++
      '.' :: padded places (r % Nat.pow 10 places))

end Binary64

end FlowTally
