import FlowTally.Pattern.Group
import FlowTally.Pattern.Set

/-!
# Reading a pattern

A search pattern is read from left to right: atoms and sets in a row, signs that repeat the
part before them, branches side by side, and groups of these. A brace opens a count, which
has no place in a pattern that itself stands in braces.
-/

namespace FlowTally.Pattern

/-- The greatest depth of a pattern. -/
def depthLimit : Nat := 250

/-- A place in a pattern. -/
structure Reading where
  /-- The switches. -/
  switches : Switches
  /-- The names of groups. -/
  names : List (List Char)
  /-- The parts of the innermost open group. -/
  parts : Nesting
  /-- Whether there is a part in front that can be repeated. -/
  repeatable : Bool
  /-- The switches and the parts around each open group, from the innermost. -/
  outer : List (Switches × Nesting)
deriving DecidableEq, Repr

namespace Reading

/-- The start of a pattern. -/
def start : Reading := ⟨.initial, [], .empty, false, []⟩

/-- Adds a part. -/
def push (r : Reading) (depth : Nat) : Reading :=
  { r with parts := r.parts.push depth, repeatable := true }

/-- Adds an atom, if it can stand here. -/
def atom? (r : Reading) (a : Atom) : Option Reading :=
  if a.isKnown r.switches then some (r.push 0) else none

/-- Opens a group, whose name must be new, or turns switches. -/
def enter? (r : Reading) : Opening → Option Reading
  | .switches s => some { r with switches := s, parts := r.parts.push 0, repeatable := false }
  | .group s name =>
    if name.any (· ∈ r.names) then none
    else some ⟨s, name.toList ++ r.names, .empty, false, (r.switches, r.parts) :: r.outer⟩

/-- Closes a group. -/
def leave? (r : Reading) : Option Reading :=
  match r.outer with
  | [] => none
  | (switches, parts) :: outer =>
    some (push { r with switches, parts, outer } (r.parts.depth + 1))

/-- What a character does, and how many further characters belong to it. -/
def step? (r : Reading) (c : Char) (cs : List Char) : Option (Reading × Nat) :=
  match c with
  | '(' => (opening? r.switches cs).bind fun (opening, length) =>
      (r.enter? opening).map fun r => (r, length)
  | ')' => r.leave?.map fun r => (r, 0)
  | '|' => some ({ r with parts := r.parts.endBranch, repeatable := false }, 0)
  | '[' => (set? r.switches .empty [] cs).map fun (depth, length) => (r.push depth, length)
  | '\x7b' => none
  | '\\' => (escaped? r.switches cs).bind fun (a, length) =>
      (r.atom? a).map fun r => (r, length)
  | '.' => (r.atom? .any).map fun r => (r, 0)
  | c =>
    if c ∈ ['?', '*', '+'] then
      if r.repeatable then
        some ({ r with parts := r.parts.wrap }, if cs.head? = some '?' then 1 else 0)
      else none
    else if c = '^' ∨ c = '$' then (r.atom? .textEdge).map fun r => (r, 0)
    else (r.atom? (.char c)).map fun r => (r, 0)

/-- Reads to the end. -/
def run? (r : Reading) : List Char → Option Reading
  | [] => some r
  | c :: cs =>
    let omitted := r.switches.omitted (c :: cs)
    if 0 < omitted then r.run? (cs.drop (omitted - 1))
    else
      match r.step? c cs with
      | none => none
      | some (r, length) => r.run? (cs.drop length)
termination_by cs => cs.length
decreasing_by all_goals simp only [List.length_drop, List.length_cons]; omega

end Reading

/-- Whether a text is a pattern: every group is closed, and none is too deep. -/
def isValid (cs : List Char) : Bool :=
  match Reading.start.run? cs with
  | some r => r.outer.isEmpty && r.parts.depth ≤ depthLimit
  | none => false

end FlowTally.Pattern
