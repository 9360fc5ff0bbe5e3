import FlowTally.Decimal.Notation
import FlowTally.Json.Basic
import FlowTally.Text.Hex

/-!
# Compact JSON texts

A value is printed without blanks. A text escapes quotes, backslashes and the
characters below U+0020, so a printed value never holds a line break. A number
that is not finite has no JSON form and is printed as null.
-/

namespace FlowTally.Json

open Decimal Text

/-- One character as it stands in a JSON text. -/
def escapeChar (c : Char) : List Char :=
  if c = '"' then ['\\', '"']
  else if c = '\\' then ['\\', '\\']
  else if c = '\x08' then ['\\', 'b']
  else if c = '\x0c' then ['\\', 'f']
  else if c = '\n' then ['\\', 'n']
  else if c = '\r' then ['\\', 'r']
  else if c = '\t' then ['\\', 't']
  else if c.toNat < 0x20 then
    ['\\', 'u', '0', '0', hexDigit (c.toNat / 16), hexDigit (c.toNat % 16)]
  else [c]

/-- A text between quotes, with its escapes. -/
def printString (s : String) : List Char :=
  '"' :: s.toList.flatMap escapeChar ++ ['"']

/-- A number. -/
def printNumber : Number → List Char
  | .integer i => signed i
  | .float x => x.jsonText?.getD ['n', 'u', 'l', 'l']

mutual
/-- The compact text of a value. -/
def print : Json → List Char
  | .null => ['n', 'u', 'l', 'l']
  | .bool true => ['t', 'r', 'u', 'e']
  | .bool false => ['f', 'a', 'l', 's', 'e']
  | .num n => printNumber n
  | .str s => printString s
  | .arr [] => ['[', ']']
  | .arr (item :: rest) => '[' :: print item ++ printItems rest
  | .obj [] => ['\x7b', '\x7d']
  | .obj ((name, value) :: rest) =>
    '\x7b' :: printString name ++ ':' :: print value ++ printMembers rest

/-- The items behind the first one, and the closing bracket. -/
def printItems : List Json → List Char
  | [] => [']']
  | item :: rest => ',' :: print item ++ printItems rest

/-- The members behind the first one, and the closing brace. -/
def printMembers : List (String × Json) → List Char
  | [] => ['\x7d']
  | (name, value) :: rest =>
    ',' :: printString name ++ ':' :: print value ++ printMembers rest
end

/-- The compact text of a value. -/
def compact (value : Json) : String := String.ofList (print value)

end FlowTally.Json
