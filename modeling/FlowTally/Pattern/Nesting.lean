/-!
# Depth of a pattern

A pattern is a tree: groups, sets and repetitions hold other parts, and so do several parts
in a row and several branches side by side. The depth of the tree is counted while its
parts go by, from what is inside to what is outside.
-/

namespace FlowTally.Pattern

/-- The parts of a group or set so far. -/
structure Nesting where
  /-- The number of parts of the last branch. -/
  count : Nat
  /-- The depth of the deepest part of that branch before its last. -/
  deepest : Nat
  /-- The depth of its last part. -/
  last : Nat
  /-- The depth of what was before that branch. -/
  before : Option Nat
deriving DecidableEq, Repr

namespace Nesting

/-- No part. -/
def empty : Nesting := ⟨0, 0, 0, none⟩

/-- Adds a part. -/
def push (n : Nesting) (depth : Nat) : Nesting :=
  { n with count := n.count + 1, deepest := max n.deepest n.last, last := depth }

/-- Makes the last part the inside of another, such as a repetition. -/
def wrap (n : Nesting) : Nesting := { n with last := n.last + 1 }

/-- The depth of the last branch. Several parts in a row are one deeper than each. -/
def branch (n : Nesting) : Nat :=
  if n.count ≤ 1 then n.last else max n.deepest n.last + 1

/-- The depth of all parts. Several branches side by side are one deeper than each. -/
def depth (n : Nesting) : Nat :=
  match n.before with
  | none => n.branch
  | some before => max before n.branch + 1

/-- Ends a branch of any number of branches. -/
def endBranch (n : Nesting) : Nesting :=
  { empty with before := some (max (n.before.getD 0) n.branch) }

/-- Ends an operand, which forms a pair with the one before it. -/
def endOperand (n : Nesting) : Nesting := { empty with before := some n.depth }

end Nesting

end FlowTally.Pattern
