import FlowTally.Decimal.Digits
import FlowTally.Time.Calendar

/-!
# Points in time

A point in time is a second since the first of January 1970 in universal time and a
number of nanoseconds. Inside a leap second the second before it goes on for
another thousand million nanoseconds. Any second may go on like that; in a point that is
made out of parts only the last of a minute does.
-/

namespace FlowTally

/-- A point in universal time. -/
structure Instant where
  /-- Seconds since the first of January 1970, without leap seconds. -/
  second : Int
  /-- Nanoseconds; from a thousand million on, those past the end of the second. -/
  nano : Nat
  /-- A second and a leap second have two thousand million nanoseconds. -/
  nano_lt : nano < 2000000000
  /-- No point lies before the first of January of the year -262143. -/
  earliest_le : -8334601228800 ≤ second
  /-- No point lies after the last of December of the year 262142. -/
  le_latest : second ≤ 8210266876799
deriving DecidableEq, Repr

namespace Instant

/-- The start of the count. -/
def epoch : Instant := ⟨0, 0, by decide, by decide, by decide⟩

/-- The point with the given second and nanoseconds, if there is one. Only the last second
of a minute may go on past its end. -/
def ofParts? (second : Int) (nano : Nat) : Option Instant :=
  if h : nano < 2000000000 ∧ (1000000000 ≤ nano → second % 60 = 59) ∧
      -8334601228800 ≤ second ∧ second ≤ 8210266876799 then
    some ⟨second, nano, h.1, h.2.2.1, h.2.2.2⟩
  else none

/-- The point a number of milliseconds after the start of the count. -/
def ofMillis? (ms : Int) : Option Instant :=
  ofParts? (ms.fdiv 1000) (ms.fmod 1000 * 1000000).toNat

/-- The order of time. -/
def compare (a b : Instant) : Ordering :=
  (Ord.compare a.second b.second).then (Ord.compare a.nano b.nano)

/-- The earlier point; of two equal points the first. -/
def min (a b : Instant) : Instant := if b.compare a = .lt then b else a

/-- The later point; of two equal points the second. -/
def max (a b : Instant) : Instant := if b.compare a = .lt then a else b

/-- The day number of a point. -/
def day (t : Instant) : Int := t.second.fdiv 86400

/-- The second of the day. -/
def secondOfDay (t : Instant) : Nat := (t.second.fmod 86400).toNat

/-- The nanoseconds from one point to another. A leap second that lies between them
within one day counts. -/
def nanosSince (last first : Instant) : Int :=
  let s : Int := last.secondOfDay
  let s₀ : Int := first.secondOfDay
  let leap : Int :=
    if s₀ < s ∧ 1000000000 ≤ first.nano then 1
    else if s < s₀ ∧ 1000000000 ≤ last.nano then -1
    else 0
  ((last.day - first.day) * 86400 + (s - s₀) + leap) * 1000000000 +
    ((last.nano : Int) - first.nano)

/-- The whole milliseconds between two points, whichever comes first. -/
def millisBetween (first last : Instant) : Nat :=
  (last.nanosSince first).natAbs / 1000000

end Instant

end FlowTally
