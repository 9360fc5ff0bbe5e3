import FlowTally.Time.Instant

/-!
# Written points in time

A date and a time of day with a separator between them. A leap second is written
as second 60. Years from 0 to 9999 have four digits, all others a sign and at
least four digits.
-/

namespace FlowTally.Instant

open Decimal Calendar

/-- How many places of a second are written. -/
inductive Places where
  /-- Three, cutting off the rest. -/
  | millis
  /-- None, three, six or nine, the fewest that lose nothing. -/
  | fewest
deriving DecidableEq, Repr

/-- A year. -/
def yearText (year : Int) : List Char :=
  if 0 ≤ year ∧ year ≤ 9999 then padded 4 year.natAbs
  else (if year < 0 then '-' else '+') :: padded 4 year.natAbs

/-- A date. -/
def dateText (d : Date) : List Char :=
  yearText d.year ++ '-' :: padded 2 d.month ++ '-' :: padded 2 d.day

/-- The places of a second, with their point. -/
def fractionText (places : Places) (nano : Nat) : List Char :=
  match places with
  | .millis => '.' :: padded 3 (nano / 1000000)
  | .fewest =>
    if nano = 0 then []
    else if nano % 1000000 = 0 then '.' :: padded 3 (nano / 1000000)
    else if nano % 1000 = 0 then '.' :: padded 6 (nano / 1000)
    else '.' :: padded 9 nano

/-- A time of day. -/
def clockText (places : Places) (secondOfDay nano : Nat) : List Char :=
  let second := secondOfDay % 60 + nano / 1000000000
  padded 2 (secondOfDay / 3600) ++ ':' :: padded 2 (secondOfDay / 60 % 60) ++
    ':' :: padded 2 second ++ fractionText places (nano % 1000000000)

/-- A date and a time of day. -/
def text (places : Places) (separator : Char) (t : Instant) : List Char :=
  dateText (Date.ofDays t.day) ++ separator :: clockText places t.secondOfDay t.nano

/-- The form in results of lines: milliseconds, and a `Z` for universal time. -/
def lineText (t : Instant) : List Char := t.text .millis 'T' ++ ['Z']

/-- The form in group keys: nothing is cut off. -/
def keyText (t : Instant) : List Char := t.text .fewest 'T' ++ ['Z']

/-- The form in tables. -/
def tableText (t : Instant) : List Char := t.text .millis ' '

end FlowTally.Instant
