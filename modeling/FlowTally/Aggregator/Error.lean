import FlowTally.FieldId

/-!
# Errors of an aggregation

What can go wrong when fields are configured, records are written and results are
walked through.
-/

namespace FlowTally

/-- Why a step of an aggregation fails. -/
inductive AggregateError where
  /-- The field is unknown, cannot be read, or cannot be aggregated as asked. -/
  | unknownField (field : FieldId)
  /-- The record has no storage. -/
  | recordNotAllocated
  /-- There is no group. -/
  | empty
  /-- There is no further group. -/
  | pastEnd
deriving DecidableEq, Repr

namespace AggregateError

/-- The wording of the error. -/
def message : AggregateError → String
  | .unknownField field => "unknown field " ++ field.label
  | .recordNotAllocated => "record is not allocated"
  | .empty => "heap holds no groups"
  | .pastEnd => "end of result set"

/-- Whether the error only ends a walk through the results. -/
def endsWalk : AggregateError → Bool
  | .empty | .pastEnd => true
  | _ => false

end AggregateError

end FlowTally
