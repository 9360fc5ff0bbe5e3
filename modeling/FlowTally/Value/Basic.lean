import FlowTally.Address.Text
import FlowTally.Decimal.Notation
import FlowTally.Mac
import FlowTally.Time.Text

/-!
# Field values

The values that a record field can hold, their types, and the text of a value in a
result table.
-/

namespace FlowTally

/-- The type of a field value. -/
inductive ValueType where
  /-- Unsigned words of eight bits. -/
  | u8
  /-- Unsigned words of 16 bits. -/
  | u16
  /-- Unsigned words of 32 bits. -/
  | u32
  /-- Unsigned words of 64 bits. -/
  | u64
  /-- Floating-point numbers. -/
  | f64
  /-- Points in time. -/
  | timestamp
  /-- Network addresses. -/
  | addr
  /-- Link-layer addresses. -/
  | mac
  /-- Texts. -/
  | string
  /-- Byte strings. -/
  | blob
deriving DecidableEq, Repr

/-- The value of a field. -/
inductive Value where
  /-- An unsigned word of eight bits. -/
  | u8 (n : UInt8)
  /-- An unsigned word of 16 bits. -/
  | u16 (n : UInt16)
  /-- An unsigned word of 32 bits. -/
  | u32 (n : UInt32)
  /-- An unsigned word of 64 bits. -/
  | u64 (n : UInt64)
  /-- A floating-point number. -/
  | f64 (x : Binary64)
  /-- A point in time. -/
  | timestamp (t : Instant)
  /-- A network address. -/
  | addr (a : Address)
  /-- A link-layer address. -/
  | mac (m : Mac)
  /-- A text. -/
  | string (s : String)
  /-- A byte string. -/
  | blob (bytes : List UInt8)
deriving DecidableEq, Repr

namespace ValueType

/-- The name of a type in messages. -/
def name : ValueType → String
  | .u8 => "u8"
  | .u16 => "u16"
  | .u32 => "u32"
  | .u64 => "u64"
  | .f64 => "f64"
  | .timestamp => "timestamp"
  | .addr => "addr"
  | .mac => "mac"
  | .string => "string"
  | .blob => "blob"

/-- The value that stands for an unset field in a group key. -/
def zero : ValueType → Value
  | .u8 => .u8 0
  | .u16 => .u16 0
  | .u32 => .u32 0
  | .u64 => .u64 0
  | .f64 => .f64 .zero
  | .timestamp => .timestamp .epoch
  | .addr => .addr .unspecified
  | .mac => .mac .zero
  | .string => .string ""
  | .blob => .blob []

end ValueType

namespace Value

/-- The type of a value. -/
def type : Value → ValueType
  | .u8 _ => .u8
  | .u16 _ => .u16
  | .u32 _ => .u32
  | .u64 _ => .u64
  | .f64 _ => .f64
  | .timestamp _ => .timestamp
  | .addr _ => .addr
  | .mac _ => .mac
  | .string _ => .string
  | .blob _ => .blob

/-- The value of a word of any width, as a word of 64 bits. -/
def toUInt64? : Value → Option UInt64
  | .u8 n => some n.toUInt64
  | .u16 n => some n.toUInt64
  | .u32 n => some n.toUInt64
  | .u64 n => some n
  | _ => none

/-- The value of a word or a floating-point number, as the nearest floating-point
number. -/
def toBinary64? : Value → Option Binary64
  | .f64 x => some x
  | v => v.toUInt64?.map .ofUInt64

/-- The value of a point in time. -/
def toInstant? : Value → Option Instant
  | .timestamp t => some t
  | _ => none

/-- Truncates an address to the length given for its family; any other value stays. -/
def truncate (v4Bits v6Bits : UInt8) : Value → Value
  | .addr a => .addr (a.truncate v4Bits v6Bits)
  | v => v

/-- The text of a value in a result table. -/
def tableText : Value → List Char
  | .u8 n => Decimal.digits n.toNat
  | .u16 n => Decimal.digits n.toNat
  | .u32 n => Decimal.digits n.toNat
  | .u64 n => Decimal.digits n.toNat
  | .f64 x => x.fixedText 3
  | .timestamp t => t.tableText
  | .addr a => a.text
  | .mac m => m.text
  | .string s => s.toList
  | .blob bytes => Text.hexBytes bytes

/-- The zero of a type has that type. -/
@[simp] theorem type_zero (type : ValueType) : type.zero.type = type := by
  cases type <;> rfl

/-- Truncation keeps the type. -/
@[simp] theorem type_truncate (v4Bits v6Bits : UInt8) (v : Value) :
    (v.truncate v4Bits v6Bits).type = v.type := by
  cases v <;> rfl

/-- Truncating twice is truncating once. -/
@[simp] theorem truncate_truncate (v4Bits v6Bits : UInt8) (v : Value) :
    (v.truncate v4Bits v6Bits).truncate v4Bits v6Bits = v.truncate v4Bits v6Bits := by
  cases v with
  | addr a => simp only [truncate, Address.truncate_truncate]
  | _ => rfl

end Value

end FlowTally
