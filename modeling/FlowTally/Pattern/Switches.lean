import FlowTally.Text.Blank

/-!
# Switches of a pattern

Letters in parentheses switch how the rest of a group is read. Three of them matter for
what may be written: whether letters match in either case, whether characters of all
scripts are matched or only those of ASCII, and whether blanks and comments are left out.
-/

namespace FlowTally.Pattern

/-- The switches that matter for what may be written. -/
structure Switches where
  /-- Letters match in either case. -/
  anyCase : Bool
  /-- Characters of all scripts are matched. -/
  allScripts : Bool
  /-- Blanks and comments are left out. -/
  spaced : Bool
deriving DecidableEq, Repr

namespace Switches

/-- The switches at the start of a pattern. -/
def initial : Switches := ⟨false, true, false⟩

/-- The letters of all switches. -/
def letters : List Char := ['i', 'm', 's', 'U', 'u', 'R', 'x']

/-- Turns the switch of a letter on or off. -/
def turn (on : Bool) (s : Switches) : Char → Switches
  | 'i' => { s with anyCase := on }
  | 'u' => { s with allScripts := on }
  | 'x' => { s with spaced := on }
  | _ => s

/-- Turns on the switches whose letters stand in front of a hyphen, and off those behind
it. A letter stands only once, and one at least stands behind a hyphen. -/
def turnAll? (s : Switches) (cs : List Char) : Option Switches :=
  let on := cs.takeWhile (· ≠ '-')
  let behind := cs.dropWhile (· ≠ '-')
  let off := behind.drop 1
  if behind ≠ ['-'] ∧ (on ++ off).Nodup ∧ (on ++ off).all (· ∈ letters) then
    some (off.foldl (turn false) (on.foldl (turn true) s))
  else none

end Switches

/-- The length of the blanks and comments in front. A comment starts at a number sign and
reaches to the end of its line. -/
def spaces (inComment : Bool) : List Char → Nat
  | [] => 0
  | c :: cs =>
    if inComment then spaces (c ≠ '\n') cs + 1
    else if Text.isBlank c then spaces false cs + 1
    else if c = '#' then spaces true cs + 1
    else 0

/-- The length of what is left out in front. -/
def Switches.omitted (s : Switches) (cs : List Char) : Nat :=
  if s.spaced then spaces false cs else 0

end FlowTally.Pattern
