import FlowTally.Value.Basic

/-!
# Group keys

Two records belong to one group when their key values have the same text. Each
value is written with a letter for its type in front and a semicolon behind; a
text escapes semicolons and backslashes, so a list of values can be read off its
key.
-/

namespace FlowTally.Value

/-- The letter of a type. -/
def keyTag : ValueType → Char
  | .u8 => 'b'
  | .u16 => 'w'
  | .u32 => 'd'
  | .u64 => 'q'
  | .f64 => 'f'
  | .timestamp => 't'
  | .addr => 'a'
  | .mac => 'm'
  | .string => 's'
  | .blob => 'x'

/-- One character of a text inside a key. -/
def keyEscape (c : Char) : List Char :=
  if c = '\\' ∨ c = ';' then ['\\', c] else [c]

/-- The text of a value inside a key. Both zeros are written alike. -/
def keyBody : Value → List Char
  | .f64 x => if x.isZero then Binary64.zero.plainText else x.plainText
  | .timestamp t => t.keyText
  | .string s => s.toList.flatMap keyEscape
  | v => v.tableText

/-- One value of a key. -/
def keyPart (v : Value) : List Char :=
  keyTag v.type :: ':' :: v.keyBody ++ [';']

/-- The key of a list of values. -/
def keyText (values : List Value) : String :=
  String.ofList (values.flatMap keyPart)

end FlowTally.Value
