import FlowTally.Time.Instant

/-!
# Reading points in time

A point in time is read as date, separator, time of day, optional places of a
second and distance from universal time. The parts are checked in the order they
stand in, so the first fault decides the error.
-/

namespace FlowTally.Instant

open Decimal Calendar

/-- Why a text is no point in time. -/
inductive ReadError where
  /-- The text ends too early. -/
  | tooShort
  /-- A character is none that may stand there. -/
  | invalid
  /-- The parts name no date, time or distance that exists. -/
  | outOfRange
  /-- Something follows the point in time. -/
  | trailing
deriving DecidableEq, Repr

/-- The wording of the error. -/
def ReadError.message : ReadError → String
  | .tooShort => "premature end of input"
  | .invalid => "input contains invalid characters"
  | .outOfRange => "input is out of range"
  | .trailing => "trailing input"

/-- Part of a point in time, read from the front of a text. -/
abbrev Reader (α : Type) := List Char → Except ReadError (α × List Char)

/-- A number of exactly `count` digits. -/
def fixedDigits (count : Nat) : Reader Nat := fun cs =>
  let ds := cs.take count
  if ds.length = count ∧ ds.all isDigit then .ok (ofDigits ds, cs.drop count)
  else .error .invalid

/-- One of the given characters. -/
def oneOf (allowed : List Char) : Reader Unit
  | c :: rest => if c ∈ allowed then .ok ((), rest) else .error .invalid
  | [] => .error .invalid

/-- Year, month and day with hyphens. -/
def date : Reader Date := fun cs => do
  let (year, cs) ← fixedDigits 4 cs
  let (_, cs) ← oneOf ['-'] cs
  let (month, cs) ← fixedDigits 2 cs
  let (_, cs) ← oneOf ['-'] cs
  let (day, cs) ← fixedDigits 2 cs
  let d : Date := ⟨year, month, day⟩
  if d.exists? then .ok (d, cs) else .error .outOfRange

/-- Hour, minute and second with colons. -/
def clock : Reader (Nat × Nat × Nat) := fun cs => do
  let (hour, cs) ← fixedDigits 2 cs
  let (_, cs) ← oneOf [':'] cs
  let (minute, cs) ← fixedDigits 2 cs
  let (_, cs) ← oneOf [':'] cs
  let (second, cs) ← fixedDigits 2 cs
  .ok ((hour, minute, second), cs)

/-- The nanoseconds behind a point; digits behind the ninth do not count. -/
def fraction : Reader Nat
  | '.' :: cs =>
    let ds := cs.takeWhile isDigit
    if ds = [] then .error (if cs = [] then .tooShort else .invalid)
    else
      let kept := ds.take 9
      .ok (ofDigits kept * Nat.pow 10 (9 - kept.length), cs.drop ds.length)
  | cs => .ok (0, cs)

/-- Two digits of a distance. A text that ends before them is too short. -/
def twoDigits : Reader Nat
  | [] => .error .tooShort
  | [c] => .error (if c.utf8Size = 1 then .tooShort else .invalid)
  | tens :: units :: rest =>
    if isDigit tens && isDigit units then .ok (ofDigits [tens, units], rest) else .error .invalid

/-- The distance from universal time in seconds, east counting up. -/
def distance : Reader Int
  | [] => .error .tooShort
  | c :: cs =>
    if c = 'Z' ∨ c = 'z' then .ok (0, cs)
    else if c = '+' ∨ c = '-' ∨ c = '\u2212' then do
      let (hours, cs) ← twoDigits cs
      let cs ← match cs with
        | [] => .error .tooShort
        | c :: cs => if c = ':' then .ok cs else .error .invalid
      let (minutes, cs) ← twoDigits cs
      if 60 ≤ minutes then .error .outOfRange
      else
        let seconds : Int := hours * 3600 + minutes * 60
        .ok (if c = '+' then seconds else -seconds, cs)
    else .error .invalid

/-- Reads a point in time. Second 60 of any minute is a leap second. -/
def read (s : String) : Except ReadError Instant := do
  if s.utf8ByteSize < 19 then .error .tooShort
  let (date, cs) ← date s.toList
  let (_, cs) ← oneOf ['T', 't', ' '] cs
  let ((hour, minute, second), cs) ← clock cs
  let (nano, cs) ← fraction cs
  if 24 ≤ hour ∨ 60 ≤ minute ∨ 60 < second then .error .outOfRange
  let (distance, cs) ← distance cs
  if cs ≠ [] then .error .trailing
  if 86400 ≤ distance.natAbs then .error .outOfRange
  let (second, nano) := if second = 60 then (59, nano + 1000000000) else (second, nano)
  let local_ : Int := date.toDays * 86400 + (hour * 3600 + minute * 60 + second : Nat)
  match ofParts? (local_ - distance) nano with
  | some t => .ok t
  | none => .error .outOfRange

end FlowTally.Instant
