import FlowTally.Config.Setting

/-!
# Anchors

An anchor names the node behind it, and an alias stands for the node that its name has
been given to last. A name is known by a number, which is how many other names there
were when it was given; a name that is given again takes a new number, and so two names
can come to share one. A number stands for the last node that it was given to in the
whole text.
-/

namespace FlowTally.Yaml

/-- The anchors of a text so far. -/
structure Anchors where
  /-- Each name with its number. -/
  names : List (List Char × Nat)
  /-- The number of each node that has been named, the newest in front. -/
  numbers : List Nat
  /-- The named nodes that are complete, by their places among all named nodes. -/
  nodes : List (Nat × Setting)
deriving Repr

namespace Anchors

/-- No anchor. -/
def empty : Anchors := ⟨[], [], []⟩

/-- Gives a name to the node that starts now. The node is known by its place among all
named nodes from then on. -/
def name (cs : List Char) (a : Anchors) : Anchors × Nat :=
  let number := a.names.length
  ({ a with names := (cs, number) :: a.names.filter fun e => decide (e.1 ≠ cs)
            numbers := number :: a.numbers }, a.numbers.length)

/-- The number of a name. -/
def number? (cs : List Char) (a : Anchors) : Option Nat := a.names.lookup cs

/-- Completes the node at a place among the named nodes, if it has one. -/
def complete (place : Option Nat) (s : Setting) (a : Anchors) : Anchors :=
  match place with
  | none => a
  | some place => { a with nodes := (place, s) :: a.nodes }

/-- The node that each number stands for; of two with one number the first counts. -/
def shared (a : Anchors) : List (Nat × Setting) :=
  let places := (List.range a.numbers.length).reverse
  (a.numbers.zip places).filterMap fun (number, place) =>
    (a.nodes.lookup place).map (number, ·)

end Anchors

end FlowTally.Yaml
