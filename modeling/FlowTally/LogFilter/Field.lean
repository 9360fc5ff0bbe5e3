import FlowTally.Decimal.Digits
import FlowTally.Pattern.Reading

/-!
# Fields of a log filter

A field has a name and, behind an equals sign, a value: a number, or a pattern of texts.
What follows a second equals sign says nothing.
-/

namespace FlowTally.LogFilter

open Decimal

/-- Drops a sign. -/
def unsigned : List Char → List Char
  | '+' :: cs => cs
  | '-' :: cs => cs
  | cs => cs

/-- Whether a text is an exponent: digits, with a sign if there is one. -/
def isExponent (cs : List Char) : Bool :=
  !(unsigned cs).isEmpty && (unsigned cs).all isDigit

/-- Whether a text is a decimal number without a sign: digits, a point between or beside
them if there is one, and an exponent if there is one. -/
def isDecimal (cs : List Char) : Bool :=
  let rest := cs.dropWhile isDigit
  let fraction := match rest with
    | '.' :: cs => cs.takeWhile isDigit
    | _ => []
  let rest := match rest with
    | '.' :: cs => cs.dropWhile isDigit
    | cs => cs
  !(cs.takeWhile isDigit ++ fraction).isEmpty && match rest with
    | [] => true
    | mark :: exponent => mark.toLower = 'e' && isExponent exponent

/-- Whether a text is a number, one of the numbers that have names included. -/
def isNumber (cs : List Char) : Bool :=
  isDecimal (unsigned cs) ||
    String.ofList ((unsigned cs).map Char.toLower) ∈ ["inf", "infinity", "nan"]

/-- Whether a text is a field. -/
def isField (cs : List Char) : Bool :=
  match cs.dropWhile (· ≠ '=') with
  | '=' :: behind =>
    let value := behind.takeWhile (· ≠ '=')
    isNumber value || Pattern.isValid value
  | _ => !cs.isEmpty

end FlowTally.LogFilter
