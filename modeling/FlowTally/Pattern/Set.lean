import FlowTally.Pattern.Atom
import FlowTally.Pattern.Nesting

/-!
# Sets of characters

A set stands in square brackets: characters, ranges, named classes and further sets, with
operators between them. Of a hyphen or a closing bracket at its front it is said here when
they stand for themselves.
-/

namespace FlowTally.Pattern

/-- How far an open set has been read. -/
inductive SetPhase where
  /-- Nothing stands behind its bracket. -/
  | opened
  /-- Hyphens stand for themselves, and a closing bracket does before any item. -/
  | front
  /-- The front is over. -/
  | body
deriving DecidableEq, Repr

/-- A set whose closing bracket has not come. -/
structure OpenSet where
  /-- How far it has been read. -/
  phase : SetPhase
  /-- Its items. -/
  items : Nesting
deriving DecidableEq, Repr

namespace OpenSet

/-- A set behind its opening bracket. -/
def empty : OpenSet := ⟨.opened, .empty⟩

/-- Adds an item, behind which the front is over. -/
def push (o : OpenSet) (depth : Nat) : OpenSet := ⟨.body, o.items.push depth⟩

/-- The depth of the set. -/
def depth (o : OpenSet) : Nat := o.items.depth + 1

end OpenSet

/-- The names of classes. -/
def classNames : List String :=
  ["alnum", "alpha", "ascii", "blank", "cntrl", "digit", "graph", "lower", "print", "punct",
    "space", "upper", "word", "xdigit"]

/-- A named class behind its opening bracket: whether it is the class of all others, and
its length. -/
def namedClass? : List Char → Option (Bool × Nat)
  | ':' :: cs =>
    let others := cs.head? == some '^'
    let name := (cs.drop others.toNat).takeWhile (· ≠ ':')
    if String.ofList name ∈ classNames ∧
        (cs.drop (others.toNat + name.length)).take 2 = [':', ']'] then
      some (others, others.toNat + name.length + 3)
    else none
  | _ => none

/-- The atom at the front of an item, and its length. -/
def setAtom? (s : Switches) : List Char → Option (Atom × Nat)
  | [] => none
  | '\\' :: cs => (escaped? s cs).map fun (a, length) => (a, length + 1)
  | c :: _ => some (.char c, 1)

/-- Whether two atoms are the ends of a range. -/
def isRange (s : Switches) (first last : Atom) : Bool :=
  match first.code? s, last.code? s with
  | some m, some n => m ≤ n
  | _, _ => false

/-- The length of an item: a range, or an atom alone. A hyphen makes a range unless it is
the last character of the set or another hyphen follows. -/
def setItem? (s : Switches) (cs : List Char) : Option Nat := do
  let (first, length) ← setAtom? s cs
  let length := length + s.omitted (cs.drop length)
  let alone := if first.isMember s then some length else none
  match cs.drop length with
  | '-' :: behind =>
    let omitted := s.omitted behind
    match behind.drop omitted with
    | [] => none
    | ']' :: _ => alone
    | '-' :: _ => alone
    | second => do
      let (last, lastLength) ← setAtom? s second
      if isRange s first last then some (length + 1 + omitted + lastLength) else none
  | _ => alone

/-- What a character of a set does. -/
inductive SetStep where
  /-- The outermost set ends with this depth. -/
  | closed (depth : Nat)
  /-- The sets stay open, behind so many further characters. -/
  | onward (inner : OpenSet) (outer : List OpenSet) (length : Nat)
deriving DecidableEq, Repr

/-- What a character does to the innermost set and those around it. -/
def setStep? (s : Switches) (inner : OpenSet) (outer : List OpenSet) (c : Char)
    (cs : List Char) : Option SetStep :=
  let holdsAscii := (Atom.char c).isMember s
  if c = '^' ∧ inner.phase = .opened then
    if s.allScripts then some (.onward { inner with phase := .front } outer 0) else none
  else if c = '-' ∧ inner.phase ≠ .body then
    if holdsAscii then some (.onward { inner.push 0 with phase := .front } outer 0) else none
  else if c = ']' ∧ inner.phase ≠ .body ∧ inner.items.count = 0 then
    if holdsAscii then some (.onward (inner.push 0) outer 0) else none
  else if c = ']' then
    match outer with
    | [] => some (.closed inner.depth)
    | around :: outer => some (.onward (around.push inner.depth) outer 0)
  else if c = '[' then
    match namedClass? cs with
    | some (others, length) =>
      if if s.allScripts then !s.anyCase else !others then
        some (.onward (inner.push 0) outer length)
      else none
    | none => some (.onward .empty (inner :: outer) 0)
  else if c ∈ ['&', '-', '~'] ∧ cs.head? = some c then
    some (.onward ⟨.body, inner.items.endOperand⟩ outer 1)
  else (setItem? s (c :: cs)).map fun length => .onward (inner.push 0) outer (length - 1)

/-- The depth of a set, and its length behind the opening bracket. -/
def set? (s : Switches) (inner : OpenSet) (outer : List OpenSet) :
    List Char → Option (Nat × Nat)
  | [] => none
  | c :: cs =>
    let omitted := s.omitted (c :: cs)
    if 0 < omitted then
      (set? s inner outer (cs.drop (omitted - 1))).map fun (depth, length) =>
        (depth, length + omitted)
    else
      match setStep? s inner outer c cs with
      | none => none
      | some (.closed depth) => some (depth, 1)
      | some (.onward inner outer length) =>
        (set? s inner outer (cs.drop length)).map fun (depth, further) =>
          (depth, further + length + 1)
termination_by cs => cs.length
decreasing_by all_goals simp only [List.length_drop, List.length_cons]; omega

end FlowTally.Pattern
