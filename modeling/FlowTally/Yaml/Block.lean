import FlowTally.Yaml.Blanks

/-!
# Block scalars

A literal scalar keeps its lines; a folded one joins them, except where a line starts
with a blank. The lines are indented as far as the first of them that is not empty, or
as far as a digit says. What becomes of the line breaks at the end is up to a sign.
-/

namespace FlowTally.Yaml

/-- What becomes of the line breaks at the end. -/
inductive Chomping where
  /-- None is kept. -/
  | strip
  /-- The first is kept. -/
  | clip
  /-- All are kept. -/
  | keep
deriving DecidableEq, Repr

/-- A sign at the front, and how many characters it has. -/
def chompingMark : List Char → Chomping × Nat
  | '+' :: _ => (.keep, 1)
  | '-' :: _ => (.strip, 1)
  | _ => (.clip, 0)

/-- A digit at the front, zero if there is none, and how many characters it has. A zero
is refused. -/
def indentMark? : List Char → Option (Nat × Nat)
  | [] => some (0, 0)
  | c :: _ => if c = '0' then none else if c.isDigit then some (c.toNat - 48, 1) else some (0, 0)

/-- The sign and the digit at the front, in either order, and how many characters they
have. -/
def blockMarks? (cs : List Char) : Option (Chomping × Nat × Nat) :=
  match chompingMark cs with
  | (chomping, 1) => (indentMark? (cs.drop 1)).map fun (n, length) => (chomping, n, length + 1)
  | _ =>
    match indentMark? cs with
    | none => none
    | some (0, _) => some (.clip, 0, 0)
    | some (n, _) =>
      let (chomping, length) := chompingMark (cs.drop 1)
      some (chomping, n, length + 1)

/-- The line breaks of empty lines and the place behind the indentation that follows. -/
structure EmptyLines where
  /-- The line breaks. -/
  breaks : List Char
  /-- The place behind. -/
  place : Place
  /-- The greatest column that was reached. -/
  widest : Nat

/-- Passes empty lines and indentation, up to the column `indent` of each line if it is
known. A tab is no indentation. -/
def emptyLines? (indent : Option Nat) (fuel : Nat) (breaks : List Char) (widest : Nat)
    (p : Place) : Option EmptyLines :=
  match fuel with
  | 0 => none
  | fuel + 1 =>
    let spaces := p.front (· = ' ')
    let p := p.behind (match indent with
      | none => spaces
      | some n => spaces.take (n - p.column))
    let widest := max widest p.column
    match p.rest with
    | [] => some ⟨breaks.reverse, p, widest⟩
    | c :: _ =>
      if c = '\t' && (indent.map fun n => decide (p.column < n)).getD true then none
      else if isBreak c then emptyLines? indent fuel (breakChar c :: breaks) widest p.skipBreak
      else some ⟨breaks.reverse, p, widest⟩

/-- The lines of a block scalar, behind the characters `text` written backwards: `first`
is the break of the line in front, `more` are those of empty lines, and `afterBlank` says
whether that line starts with a blank. What is left at the end are the breaks behind the
last line. -/
def blockLines? (isFolded : Bool) (indent fuel : Nat) (text first more : List Char)
    (afterBlank : Bool) (p : Place) :
    Option (List Char × List Char × List Char × Place) :=
  match fuel with
  | 0 => none
  | fuel + 1 =>
    if p.column = indent && !p.rest.isEmpty then
      let isBlankLine := p.rest.head?.any isGap
      let breaks :=
        if isFolded && first = ['\n'] && !afterBlank && !isBlankLine then
          if more.isEmpty then [' '] else more
        else first ++ more
      let line := p.front fun c => !isBreak c
      let p := p.behind line
      let first := (p.rest.head?.map breakChar).toList
      match emptyLines? (some indent) (fuel + 1) [] 0 p.skipBreak with
      | none => none
      | some ⟨more, p, _⟩ =>
        blockLines? isFolded indent fuel (line.reverse ++ (breaks.reverse ++ text)) first more
          isBlankLine p
    else some (text, first, more, p)

/-- The characters of a block scalar and the place behind it. Its lines start at the
column `least` or behind it. -/
def block? (isFolded : Bool) (least fuel : Nat) (p : Place) : Option (List Char × Place) := do
  let (chomping, n, length) ← blockMarks? (p.rest.drop 1)
  let p ← (p.skip (length + 1)).endLine?
  let indent? := if n = 0 then none else some (least - 1 + n)
  let ⟨breaks, p, widest⟩ ← emptyLines? indent? fuel [] 0 p
  let indent := indent?.getD (max widest (max least 1))
  let (text, first, more, p) ← blockLines? isFolded indent fuel [] [] breaks false p
  let last := match chomping with
    | .strip => []
    | .clip => first
    | .keep => first ++ more
  some (text.reverse ++ last, p)

end FlowTally.Yaml
