import FlowTally.Text.Size

/-!
# Places in a text

Where a reader stands: what is left of the text, how many bytes are in front of it, on
which line and in which column it starts. Columns count characters and start again
behind each line break.
-/

namespace FlowTally.Yaml

/-- Whether a character may stand in a text at all. -/
def isAllowed (c : Char) : Bool :=
  let n := c.toNat
  c = '\t' || c = '\n' || c = '\r' || (0x20 ≤ n && n ≤ 0x7e) || n == 0x85 ||
    (0xa0 ≤ n && n ≤ 0xd7ff) || (0xe000 ≤ n && n ≤ 0xfffd) || 0x10000 ≤ n

/-- Whether a character separates parts of a line. -/
def isGap (c : Char) : Bool := c = ' ' || c = '\t'

/-- Whether a character ends a line. -/
def isBreak (c : Char) : Bool :=
  c = '\n' || c = '\r' || c = '\u0085' || c = '\u2028' || c = '\u2029'

/-- Whether a character is a gap or ends a line. -/
def isBlank (c : Char) : Bool := isGap c || isBreak c

/-- Whether the text ends or goes on with a blank. -/
def atBlank : List Char → Bool
  | [] => true
  | c :: _ => isBlank c

/-- What a line break is read as: a line feed, but separators of lines and paragraphs
stay what they are. -/
def breakChar (c : Char) : Char := if c = '\u2028' || c = '\u2029' then c else '\n'

/-- A place in a text. -/
structure Place where
  /-- What is left of the text. -/
  rest : List Char
  /-- The bytes in front of it. -/
  offset : Nat
  /-- The line breaks in front of it. -/
  line : Nat
  /-- The characters in front of it on its line. -/
  column : Nat
deriving Repr

namespace Place

/-- The place at the front of a text. -/
def start (cs : List Char) : Place := ⟨cs, 0, 0, 0⟩

/-- The place behind characters that stand here and end no line. -/
def behind (front : List Char) (p : Place) : Place :=
  ⟨p.rest.drop front.length, p.offset + Text.byteSize front, p.line,
    p.column + front.length⟩

/-- The place behind some characters that end no line. -/
def skip (n : Nat) (p : Place) : Place := p.behind (p.rest.take n)

/-- The characters that pass a test. -/
def front (test : Char → Bool) (p : Place) : List Char := p.rest.takeWhile test

/-- The place behind the characters that pass a test. -/
def skipWhile (test : Char → Bool) (p : Place) : Place := p.behind (p.front test)

/-- The place behind a line break. A carriage return and a line feed are one. -/
def skipBreak (p : Place) : Place :=
  match p.rest with
  | '\r' :: '\n' :: rest => ⟨rest, p.offset + 2, p.line + 1, 0⟩
  | c :: rest => ⟨rest, p.offset + c.utf8Size, p.line + 1, 0⟩
  | [] => p

/-- The place at the end of the line if a comment starts here. -/
def skipComment (p : Place) : Place :=
  match p.rest with
  | '#' :: _ => p.skipWhile fun c => !isBreak c
  | _ => p

/-- The place behind the rest of a line on which only a comment is left. -/
def endLine? (p : Place) : Option Place :=
  let p := (p.skipWhile isGap).skipComment
  match p.rest with
  | [] => some p
  | c :: _ => if isBreak c then some p.skipBreak else none

/-- Whether a line starts here with three hyphens or three dots and a blank, which mark
where a document starts or ends. -/
def isMarker (p : Place) : Bool :=
  p.column = 0 && match p.rest with
    | '-' :: '-' :: '-' :: rest => atBlank rest
    | '.' :: '.' :: '.' :: rest => atBlank rest
    | _ => false

end Place

end FlowTally.Yaml
