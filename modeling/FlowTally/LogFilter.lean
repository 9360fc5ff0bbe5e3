import FlowTally.LogFilter.Field
import FlowTally.Text.Alphanumeric
import FlowTally.Text.Blank
import FlowTally.Text.Size

/-!
# Log filters

A log filter says what is logged: parts with commas between them, each a level, a target,
or a target with its level behind an equals sign. A target can be followed by a span in
square brackets with a field in braces, or be that alone.

The bounds of the pieces of a part are found behind the blanks at its front, and are
counted in bytes; the pieces themselves are taken between those bounds from the part with
its blanks, so blanks in front shift what a piece is.
-/

namespace FlowTally.LogFilter

open Text

/-- Why a text is no log filter. -/
inductive Fault where
  /-- A part is not written as it has to be. -/
  | malformed
  /-- A bound of a piece is within a character. -/
  | splitsCharacter
deriving DecidableEq, Repr

/-- The names of levels. -/
def levelNames : List String := ["trace", "debug", "info", "warn", "error", "off"]

/-- Whether a text is a level: a name in any case or a number up to five. -/
def isLevel (cs : List Char) : Bool :=
  let digits := match cs with
    | '+' :: rest => rest
    | cs => cs
  let significant := digits.dropWhile (· = '0')
  String.ofList (cs.map Char.toLower) ∈ levelNames ||
    (!digits.isEmpty && digits.all Char.isDigit &&
      String.ofList significant ∈ ["", "1", "2", "3", "4", "5"])

/-- The text behind so many bytes. -/
def behind : Nat → List Char → Except Fault (List Char)
  | 0, cs => pure cs
  | _, [] => pure []
  | n, c :: cs => if n < c.utf8Size then throw .splitsCharacter else behind (n - c.utf8Size) cs

/-- The text of so many bytes. -/
def front : Nat → List Char → Except Fault (List Char)
  | 0, _ => pure []
  | _, [] => pure []
  | n, c :: cs =>
    if n < c.utf8Size then throw .splitsCharacter
    else (front (n - c.utf8Size) cs).map (c :: ·)

/-- The piece of a part that starts at a bound and has so many bytes. -/
def piece (part : List Char) (start length : Nat) : Except Fault (List Char) := do
  let rest ← behind start part
  front length rest

/-- Demands that something holds. -/
def demand (holds : Bool) : Except Fault Unit :=
  if holds then pure () else throw .malformed

/-- Checks the level that starts at a bound. It may be left out. -/
def checkLevel (part : List Char) (start : Nat) : Except Fault Unit := do
  let level ← behind start part
  demand (level.isEmpty || isLevel level)

/-- Checks what follows a span: nothing, or a level. -/
def checkBehindSpan (part : List Char) (start : Nat) : List Char → Except Fault Unit
  | [] => pure ()
  | '=' :: _ => checkLevel part (start + 1)
  | _ => throw .malformed

/-- Checks the field that starts at a bound, and what follows it. -/
def checkField (part : List Char) (start : Nat) (cs : List Char) : Except Fault Unit := do
  let length := byteSize (cs.takeWhile (· ≠ '\x7d'))
  match cs.dropWhile (· ≠ '\x7d') with
  | _ :: rest =>
    let field ← piece part start length
    demand (isField field)
    match rest with
    | ']' :: rest => checkBehindSpan part (start + length + 2) rest
    | _ => throw .malformed
  | [] => throw .malformed

/-- Checks the span that starts at a bound, and what follows it. -/
def checkSpan (part : List Char) (start : Nat) (cs : List Char) : Except Fault Unit := do
  let isInside (c : Char) : Bool := c ≠ ']' && c ≠ '\x7b'
  let length := byteSize (cs.takeWhile isInside)
  match cs.dropWhile isInside with
  | [] => throw .malformed
  | c :: rest =>
    let _ ← piece part start length
    if c = ']' then checkBehindSpan part (start + length + 1) rest
    else checkField part (start + length + 1) rest

/-- Whether a character can be the first of a level or a target. -/
def startsTarget (c : Char) : Bool := Text.isAlphanumeric c || c ∈ ['-', ':', '_']

/-- Checks a part. -/
def checkPart (part : List Char) : Except Fault Unit :=
  match Text.trim part with
  | [] => throw .malformed
  | '[' :: rest => checkSpan part 1 rest
  | c :: cs => do
    demand (startsTarget c)
    let isInside (c : Char) : Bool := c ≠ '=' && c ≠ '['
    let length := byteSize (c :: cs.takeWhile isInside)
    match cs.dropWhile isInside with
    | [] => pure ()
    | mark :: rest =>
      let _ ← piece part 0 length
      if mark = '=' then checkLevel part (length + 1) else checkSpan part (length + 1) rest

/-- Checks a log filter. Empty parts are left out. -/
def check (text : String) : Except Fault Unit :=
  ((text.toList.splitOn ',').filter (· ≠ [])).forM checkPart

end FlowTally.LogFilter
