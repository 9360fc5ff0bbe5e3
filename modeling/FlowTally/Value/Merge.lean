import FlowTally.Value.Basic

/-!
# Merging values

The values that the records of one group bring for a column are merged one after
the other. Which merge a column uses follows from the aggregation asked for and
the type of its values; where the two do not fit, the first value stays.
-/

namespace FlowTally

/-- What is asked of a field. -/
inductive Aggregation where
  /-- Whatever the field does by itself. -/
  | auto
  /-- Records are grouped by it. -/
  | key
  /-- The least value of a group. -/
  | min
  /-- The greatest value of a group. -/
  | max
  /-- The sum of the values of a group. -/
  | sum
  /-- The union of the bits of the values of a group. -/
  | or
deriving DecidableEq, Repr

/-- How two values of a group become one. -/
inductive Merge where
  /-- The smaller one. -/
  | min
  /-- The greater one. -/
  | max
  /-- Their sum, in the width of the words. -/
  | sum
  /-- The union of their bits. -/
  | or
  /-- The first one. -/
  | keep
deriving DecidableEq, Repr

namespace Merge

/-- The merge for an aggregation of values of a type. -/
def resolve (kind : Aggregation) (type : ValueType) : Merge :=
  match kind, type with
  | .min, .u8 | .min, .u16 | .min, .u32 | .min, .u64 | .min, .f64 | .min, .timestamp => .min
  | .max, .u8 | .max, .u16 | .max, .u32 | .max, .u64 | .max, .f64 | .max, .timestamp => .max
  | .sum, .u8 | .sum, .u16 | .sum, .u32 | .sum, .u64 | .sum, .f64 => .sum
  | .or, .u8 | .or, .u16 | .or, .u32 | .or, .u64 => .or
  | _, _ => .keep

/-- A merge of words, from the operations of their width. -/
def words {α : Type} (add union min max : α → α → α) (op : Merge) (old new : α) : α :=
  match op with
  | .min => min old new
  | .max => max old new
  | .sum => add old new
  | .or => union old new
  | .keep => old

/-- A merge of floating-point numbers. -/
def floats (op : Merge) (old new : Binary64) : Binary64 :=
  match op with
  | .min => old.min new
  | .max => old.max new
  | .sum => old.add new
  | .or | .keep => old

/-- A merge of points in time. -/
def instants (op : Merge) (old new : Instant) : Instant :=
  match op with
  | .min => old.min new
  | .max => old.max new
  | .sum | .or | .keep => old

/-- Merges two present values. Values without a common merge keep the first. -/
def combine (op : Merge) (old new : Value) : Value :=
  match old, new with
  | .u8 a, .u8 b => .u8 (op.words (· + ·) (· ||| ·) Min.min Max.max a b)
  | .u16 a, .u16 b => .u16 (op.words (· + ·) (· ||| ·) Min.min Max.max a b)
  | .u32 a, .u32 b => .u32 (op.words (· + ·) (· ||| ·) Min.min Max.max a b)
  | .u64 a, .u64 b => .u64 (op.words (· + ·) (· ||| ·) Min.min Max.max a b)
  | .f64 a, .f64 b => .f64 (op.floats a b)
  | .timestamp a, .timestamp b => .timestamp (op.instants a b)
  | old, _ => old

/-- Merges two values of which either may be absent; an absent one adds nothing. -/
def apply (op : Merge) : Option Value → Option Value → Option Value
  | none, new => new
  | old, none => old
  | some old, some new => some (op.combine old new)

/-- An absent new value changes nothing. -/
@[simp] theorem apply_none (op : Merge) (old : Option Value) : op.apply old none = old := by
  cases old <;> rfl

/-- A merge keeps the type of the first value. -/
theorem type_combine (op : Merge) (old new : Value) : (op.combine old new).type = old.type := by
  cases old <;> cases new <;> rfl

end Merge

end FlowTally
