import FlowTally.Text.Hex
import FlowTally.Text.Unmarked

/-!
# Quoted text in messages

Messages show a piece of input between double quotes. Quotes, backslashes and
line breaks are escaped, and a character that leaves no mark of its own is shown
by its number, so a message always stands on one line.
-/

namespace FlowTally.Text

/-- The lower-case hexadecimal digits of a number, without leading zeros. -/
def hexNumber (n : Nat) : List Char :=
  if n < 16 then [hexDigit n] else hexNumber (n / 16) ++ [hexDigit (n % 16)]

/-- One character as it stands between the quotes. -/
def quoteChar (c : Char) : List Char :=
  if c = '"' then ['\\', '"']
  else if c = '\\' then ['\\', '\\']
  else if c = '\n' then ['\\', 'n']
  else if c = '\r' then ['\\', 'r']
  else if c = '\t' then ['\\', 't']
  else if c = '\x00' then ['\\', '0']
  else if isUnmarked c then ['\\', 'u', '\x7b'] ++ hexNumber c.toNat ++ ['\x7d']
  else [c]

/-- A text between quotes, with its escapes. -/
def quoted (s : String) : String :=
  String.ofList ('"' :: s.toList.flatMap quoteChar ++ ['"'])

end FlowTally.Text
