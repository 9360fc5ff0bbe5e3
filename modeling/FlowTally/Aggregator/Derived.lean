import FlowTally.Aggregator.Table

/-!
# Derived values

A derived field that is merged rather than grouped by is computed from the other
values of its group: the duration from start and end, the rates from a count and
the duration, the packet size from two counts. An absent input counts as zero, and
a rate over no time is zero.
-/

namespace FlowTally

namespace Tally

/-- The value at a place of a group. -/
def at? (t : Tally) : Part × Nat → Option Value
  | (.key, i) => t.keys[i]?
  | (.value, i) => (t.values[i]?).bind id

/-- Puts a value in place of a merged one. -/
def setValue (t : Tally) (i : Nat) (v : Value) : Tally :=
  { t with values := t.values.set i (some v) }

end Tally

namespace Derived

/-- The number that an input counts as. -/
def number (v : Option Value) : Binary64 := (v.bind Value.toBinary64?).getD .zero

/-- The milliseconds between two points in time, none if either is missing. -/
def duration (first last : Option Value) : UInt64 :=
  match first.bind Value.toInstant?, last.bind Value.toInstant? with
  | some first, some last => UInt64.ofNat (Instant.millisBetween first last)
  | _, _ => 0

/-- An amount per second, over a number of milliseconds. -/
def perSecond (amount millis : Binary64) : Binary64 :=
  if millis.isZero then .zero else amount.div (millis.div (.ofUInt64 1000))

/-- An amount per piece. -/
def perPiece (amount pieces : Binary64) : Binary64 :=
  if pieces.isZero then .zero else amount.div pieces

/-- The value of a derived field, from its inputs in their order. -/
def compute (f : FieldId) (inputs : List (Option Value)) : Option Value :=
  match inputs with
  | [a, b] =>
    if f = .duration then some (.u64 (duration a b))
    else if f = .bitRate then
      some (.f64 (perSecond ((number a).mul (.ofUInt64 8)) (number b)))
    else if f = .packetRate then some (.f64 (perSecond (number a) (number b)))
    else if f = .packetSize then some (.f64 (perPiece (number b) (number a)))
    else none
  | _ => none

/-- The places of the inputs of a field, if each has a column. -/
def inputPlaces (l : Layout) : List FieldId → Option (List (Part × Nat))
  | [] => some []
  | f :: rest =>
    match l.locate f, inputPlaces l rest with
    | some place, some places => some (place :: places)
    | _, _ => none

/-- Computes one derived field of a group, if it is merged. -/
def fillField (l : Layout) (t : Tally) (f : FieldId) : Tally :=
  match l.locate f, inputPlaces l f.inputs with
  | some (.value, i), some places =>
    match compute f (places.map t.at?) with
    | some v => t.setValue i v
    | none => t
  | _, _ => t

/-- Computes all derived fields of a group, each after its inputs. -/
def fill (l : Layout) (t : Tally) : Tally := FieldId.derived.foldl (fillField l) t

end Derived

end FlowTally
