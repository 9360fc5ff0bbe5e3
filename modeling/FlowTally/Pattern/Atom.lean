import FlowTally.Pattern.Switches
import FlowTally.Text.Hex

/-!
# The smallest parts of a pattern

An atom is a character or a place between characters. There is no table of scripts: the
digits, blanks and words of all scripts, their letters in either case and classes by
property are unknown, and only those of ASCII can be asked for. Nothing may match a piece
of a character.
-/

namespace FlowTally.Pattern

/-- The smallest parts of a pattern. -/
inductive Atom where
  /-- A character. -/
  | char (c : Char)
  /-- A character given as two hexadecimal digits. -/
  | byte (n : Nat)
  /-- Any character. -/
  | any
  /-- Digits, blanks or word characters, or all others. -/
  | kind (others : Bool)
  /-- An edge of a word, or a place that is none. -/
  | wordEdge
  /-- An end of a line or of the text. -/
  | textEdge
deriving DecidableEq, Repr

namespace Atom

/-- Whether an atom can stand outside of sets. -/
def isKnown (s : Switches) : Atom → Bool
  | .char _ => !(s.allScripts && s.anyCase)
  | .byte n => if s.allScripts then !s.anyCase else n < 128
  | .any => s.allScripts
  | .kind others => !s.allScripts && !others
  | .wordEdge => !s.allScripts
  | .textEdge => true

/-- The code of an atom that can be an end of a range in a set. -/
def code? (s : Switches) : Atom → Option Nat
  | .char c => if isMember c.toNat then some c.toNat else none
  | .byte n => if isMember n then some n else none
  | _ => none
where
  /-- Whether a set can hold a character. -/
  isMember (n : Nat) : Bool := if s.allScripts then !s.anyCase else n < 128

/-- Whether an atom can stand in a set. -/
def isMember (s : Switches) : Atom → Bool
  | .kind others => (kind others).isKnown s
  | a => (a.code? s).isSome

end Atom

/-- The number that so many hexadecimal digits spell, behind the number `n`, and their
length with what is left out between them. -/
def hexNumber? (s : Switches) (n : Nat) : Nat → List Char → Option (Nat × Nat)
  | 0, _ => some (n, 0)
  | digits + 1, cs =>
    let omitted := s.omitted cs
    match cs.drop omitted with
    | [] => none
    | c :: rest => (Text.hexValue? c).bind fun value =>
      (hexNumber? s (16 * n + value) digits rest).map fun (n, length) =>
        (n, omitted + 1 + length)

/-- A character by its number of so many digits, and the length of the digits. -/
def numbered? (s : Switches) (digits : Nat) (cs : List Char) : Option (Atom × Nat) :=
  (hexNumber? s 0 digits cs).bind fun (n, length) =>
    if n.isValidChar then some (.char (Char.ofNat n), length) else none

/-- The characters that have a letter behind a backslash. -/
def lettered : List (Char × Nat) :=
  [('a', 7), ('t', 9), ('n', 10), ('v', 11), ('f', 12), ('r', 13)]

/-- The atom behind a backslash and its length. A character of ASCII that is no letter or
digit stands for itself. -/
def escaped? (s : Switches) : List Char → Option (Atom × Nat)
  | [] => none
  | c :: cs =>
    if c = 'x' then (hexNumber? s 0 2 cs).map fun (n, length) => (.byte n, length + 1)
    else if c = 'u' then (numbered? s 4 cs).map fun (a, length) => (a, length + 1)
    else if c = 'U' then (numbered? s 8 cs).map fun (a, length) => (a, length + 1)
    else if c ∈ ['d', 's', 'w'] then some (.kind false, 1)
    else if c ∈ ['D', 'S', 'W'] then some (.kind true, 1)
    else if c ∈ ['b', 'B', '<', '>'] then some (.wordEdge, 1)
    else if c ∈ ['A', 'z'] then some (.textEdge, 1)
    else match lettered.lookup c with
      | some n => some (.char (Char.ofNat n), 1)
      | none => if c.toNat < 128 ∧ !c.isAlphanum then some (.char c, 1) else none

end FlowTally.Pattern
