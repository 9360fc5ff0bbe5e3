import FlowTally.Pattern.Switches
import FlowTally.Text.Alphanumeric

/-!
# Groups of a pattern

A parenthesis opens a group, which can have a name or switches of its own, or it holds
nothing but switches for the rest of the group around it.
-/

namespace FlowTally.Pattern

/-- What a parenthesis opens. -/
inductive Opening where
  /-- Nothing: it holds switches for the rest of the group around it. -/
  | switches (s : Switches)
  /-- A group with these switches and perhaps a name. -/
  | group (s : Switches) (name : Option (List Char))
deriving DecidableEq, Repr

/-- Whether a character can be in the name of a group, behind its first. -/
def isNameCharacter (c : Char) : Bool :=
  Text.isAlphanumeric c || c ∈ ['_', '.', '[', ']']

/-- The name of a group, which ends at a sign of greater. -/
def groupName? (cs : List Char) : Option (List Char) :=
  let name := cs.takeWhile (· ≠ '>')
  match name with
  | [] => none
  | c :: rest =>
    if name.length < cs.length ∧ (Text.isAlphabetic c ∨ c = '_') ∧ rest.all isNameCharacter then
      some name
    else none

/-- What a parenthesis opens, and its length behind the parenthesis. -/
def opening? (s : Switches) (cs : List Char) : Option (Opening × Nat) :=
  let omitted := s.omitted cs
  match cs.drop omitted with
  | '?' :: 'P' :: '<' :: rest =>
    (groupName? rest).map fun name => (.group s (some name), omitted + name.length + 4)
  | '?' :: '<' :: rest =>
    (groupName? rest).map fun name => (.group s (some name), omitted + name.length + 3)
  | '?' :: rest =>
    let letters := rest.takeWhile fun c => c ≠ ':' && c ≠ ')'
    (s.turnAll? letters).bind fun turned =>
      match rest.drop letters.length with
      | ':' :: _ => some (.group turned none, omitted + letters.length + 2)
      | ')' :: _ =>
        if letters.isEmpty then none else some (.switches turned, omitted + letters.length + 2)
      | _ => none
  | _ => some (.group s none, omitted)

end FlowTally.Pattern
