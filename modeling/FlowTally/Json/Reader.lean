import FlowTally.Json.Number
import FlowTally.Text.Hex

/-!
# Strict JSON texts

A text is one value with blanks around it and nothing else. The four blanks are
space, tab, line feed and carriage return; no comma stands before a closing
bracket; control characters are escaped; an escape of half a surrogate pair needs
its other half; and arrays and objects nest less than 128 deep.
-/

namespace FlowTally.Json

open Text

/-- Whether a character may stand between the parts of a JSON text. -/
def isGap (c : Char) : Bool := c = ' ' || c = '\t' || c = '\n' || c = '\r'

/-- What follows the blanks at the front. -/
def skipGap (cs : List Char) : List Char := cs.dropWhile isGap

/-- The number that four hexadecimal digits spell. -/
def hexQuad? : List Char → Option (Nat × List Char)
  | a :: b :: c :: d :: rest => do
    let a ← hexValue? a
    let b ← hexValue? b
    let c ← hexValue? c
    let d ← hexValue? d
    some (((a * 16 + b) * 16 + c) * 16 + d, rest)
  | _ => none

/-- The character behind a backslash and a `u`, which may take two escapes. -/
def unicodeEscape? (cs : List Char) : Option (Char × List Char) := do
  let (high, rest) ← hexQuad? cs
  if 0xd800 ≤ high ∧ high < 0xdc00 then
    match rest with
    | '\\' :: 'u' :: rest =>
      let (low, rest) ← hexQuad? rest
      if 0xdc00 ≤ low ∧ low < 0xe000 then
        some (Char.ofNat (0x10000 + (high - 0xd800) * 0x400 + (low - 0xdc00)), rest)
      else none
    | _ => none
  else if 0xdc00 ≤ high ∧ high < 0xe000 then none
  else some (Char.ofNat high, rest)

/-- The character behind a backslash. -/
def escape? : List Char → Option (Char × List Char)
  | '"' :: rest => some ('"', rest)
  | '\\' :: rest => some ('\\', rest)
  | '/' :: rest => some ('/', rest)
  | 'b' :: rest => some ('\x08', rest)
  | 'f' :: rest => some ('\x0c', rest)
  | 'n' :: rest => some ('\n', rest)
  | 'r' :: rest => some ('\r', rest)
  | 't' :: rest => some ('\t', rest)
  | 'u' :: rest => unicodeEscape? rest
  | _ => none

/-- A text behind its opening quote. The characters read so far stand in reverse
order in `acc`; `fuel` bounds the steps, of which each takes at least one character. -/
def string? (fuel : Nat) (acc : List Char) (cs : List Char) : Option (String × List Char) :=
  match fuel, cs with
  | 0, _ => none
  | _, [] => none
  | fuel + 1, c :: rest =>
    if c = '"' then some (String.ofList acc.reverse, rest)
    else if c = '\\' then
      match escape? rest with
      | some (c, rest) => string? fuel (c :: acc) rest
      | none => none
    else if c.toNat < 0x20 then none
    else string? fuel (c :: acc) rest

/-- How many arrays and objects may stand one inside the other. -/
def maxDepth : Nat := 127

mutual
/-- A value at the front of a text. `depth` more arrays and objects may be opened;
`fuel` bounds the steps and the length of the text always suffices. -/
def value? (fuel depth : Nat) (cs : List Char) : Option (Json × List Char) :=
  match fuel with
  | 0 => none
  | fuel + 1 =>
    match cs with
    | 'n' :: 'u' :: 'l' :: 'l' :: rest => some (.null, rest)
    | 't' :: 'r' :: 'u' :: 'e' :: rest => some (.bool true, rest)
    | 'f' :: 'a' :: 'l' :: 's' :: 'e' :: rest => some (.bool false, rest)
    | '"' :: rest => (string? fuel [] rest).map fun (s, rest) => (.str s, rest)
    | '[' :: rest =>
      match depth with
      | 0 => none
      | depth + 1 =>
        match skipGap rest with
        | ']' :: rest => some (.arr [], rest)
        | rest => (items? fuel depth rest).map fun (items, rest) => (.arr items, rest)
    | '\x7b' :: rest =>
      match depth with
      | 0 => none
      | depth + 1 =>
        match skipGap rest with
        | '\x7d' :: rest => some (.obj [], rest)
        | rest => (members? fuel depth rest).map fun (ms, rest) => (.ofMembers ms, rest)
    | cs => (Number.read? cs).map fun (n, rest) => (.num n, rest)

/-- The items of an array from the first one on, with the closing bracket. -/
def items? (fuel depth : Nat) (cs : List Char) : Option (List Json × List Char) :=
  match fuel with
  | 0 => none
  | fuel + 1 =>
    match value? fuel depth cs with
    | none => none
    | some (item, rest) =>
      match skipGap rest with
      | ',' :: rest =>
        (items? fuel depth (skipGap rest)).map fun (items, rest) => (item :: items, rest)
      | ']' :: rest => some ([item], rest)
      | _ => none

/-- The members of an object from the first one on, with the closing brace. -/
def members? (fuel depth : Nat) (cs : List Char) :
    Option (List (String × Json) × List Char) :=
  match fuel with
  | 0 => none
  | fuel + 1 =>
    match cs with
    | '"' :: cs =>
      match string? fuel [] cs with
      | none => none
      | some (name, rest) =>
        match skipGap rest with
        | ':' :: rest =>
          match value? fuel depth (skipGap rest) with
          | none => none
          | some (value, rest) =>
            match skipGap rest with
            | ',' :: rest =>
              (members? fuel depth (skipGap rest)).map fun (ms, rest) =>
                ((name, value) :: ms, rest)
            | '\x7d' :: rest => some ([(name, value)], rest)
            | _ => none
        | _ => none
    | _ => none
end

/-- Reads a JSON text. -/
def read? (text : String) : Option Json :=
  let cs := text.toList
  match value? (2 * cs.length + 2) maxDepth (skipGap cs) with
  | some (value, rest) => if skipGap rest = [] then some value else none
  | none => none

end FlowTally.Json
