import FlowTally.Aggregator.Error
import FlowTally.Layout.Basic
import FlowTally.Record.Basic
import FlowTally.Value.KeyText

/-!
# The key and the values of a record

A record is read through a layout: its key values, truncated as the columns say,
name the group it belongs to, and its other values are merged there. An unset key
field counts as the zero of its type, an unset value field as absent. When pair
fields are grouped by, a record has one key for each side.
-/

namespace FlowTally

/-- The side of a record from which pair fields are read. -/
inductive Side where
  /-- Pair fields are read as such. -/
  | plain
  /-- Pair fields are read from their source members. -/
  | source
  /-- Pair fields are read from their destination members. -/
  | destination
deriving DecidableEq, Repr

/-- The field that is read for a field on a side. -/
def Side.resolve (side : Side) (field : FieldId) : FieldId :=
  match side, field.members? with
  | .source, some (f, _) => f
  | .destination, some (_, f) => f
  | _, _ => field

/-- What a failed access to a record means for the field of a column. -/
def AggregateError.ofRecordError (field : FieldId) : RecordError → AggregateError
  | .notAllocated => .recordNotAllocated
  | _ => .unknownField field

namespace Layout

variable {R : Type} [FlowRecord R]

/-- The value of one key column. -/
def keyValue (r : R) (side : Side) (c : Column) : Except AggregateError Value :=
  match FlowRecord.get r (side.resolve c.field) with
  | .ok v => .ok (v.truncate c.v4Bits c.v6Bits)
  | .error (.notSet _) => .ok (c.type.zero.truncate c.v4Bits c.v6Bits)
  | .error e => .error (.ofRecordError c.field e)

/-- The values of the key columns. -/
def keyValues (r : R) (side : Side) : List Column → Except AggregateError (List Value)
  | [] => .ok []
  | c :: rest =>
    match keyValue r side c with
    | .error e => .error e
    | .ok v => match keyValues r side rest with
      | .error e => .error e
      | .ok vs => .ok (v :: vs)

/-- The value of one value column, if it is set. -/
def columnValue (r : R) (c : Column) : Except AggregateError (Option Value) :=
  match FlowRecord.get r c.field with
  | .ok v => .ok (some v)
  | .error (.notSet _) => .ok none
  | .error e => .error (.ofRecordError c.field e)

/-- The values of the value columns. -/
def columnValues (r : R) : List Column → Except AggregateError (List (Option Value))
  | [] => .ok []
  | c :: rest =>
    match columnValue r c with
    | .error e => .error e
    | .ok v => match columnValues r rest with
      | .error e => .error e
      | .ok vs => .ok (v :: vs)

end Layout

end FlowTally
