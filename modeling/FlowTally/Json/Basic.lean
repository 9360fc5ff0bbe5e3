import FlowTally.Assoc
import FlowTally.Decimal.Binary64

/-!
# JSON values

The value type of the line format, of configuration objects and of result lines.
The members of an object stand in ascending order of their names, each name once.
-/

namespace FlowTally

/-- A JSON number keeps apart integers of 64 bits and all other numbers. -/
inductive Json.Number where
  /-- An integer between `-2 ^ 63` and `2 ^ 64 - 1`. -/
  | integer (i : Int)
  /-- Any other number. -/
  | float (x : Binary64)
deriving DecidableEq, Repr

/-- A JSON value. -/
inductive Json where
  /-- The null value. -/
  | null
  /-- A truth value. -/
  | bool (b : Bool)
  /-- A number. -/
  | num (n : Json.Number)
  /-- A text. -/
  | str (s : String)
  /-- A list of values. -/
  | arr (items : List Json)
  /-- Named members in ascending order of their names. -/
  | obj (members : List (String × Json))
deriving Repr

namespace Json

/-- The number as an unsigned 64-bit word. -/
def Number.toUInt64? : Number → Option UInt64
  | .integer i => if 0 ≤ i ∧ i < 0x10000000000000000 then some (UInt64.ofNat i.toNat) else none
  | .float _ => none

/-- The number as a signed 64-bit integer. -/
def Number.toInt64? : Number → Option Int
  | .integer i => if -0x8000000000000000 ≤ i ∧ i < 0x8000000000000000 then some i else none
  | .float _ => none

/-- Nearest floating-point number. -/
def Number.toBinary64 : Number → Binary64
  | .integer i =>
    let x := Binary64.ofUInt64 (UInt64.ofNat i.natAbs)
    if i < 0 then x.neg else x
  | .float x => x

/-- The object with the given members; of two members of one name the later stays. -/
def ofMembers (members : List (String × Json)) : Json :=
  .obj (members.foldl (fun acc m => Assoc.insert m.1 m.2 acc) [])

/-- What kind of value it is, as messages name it. -/
def kind : Json → String
  | .null => "null"
  | .bool _ => "bool"
  | .num _ => "number"
  | .str _ => "string"
  | .arr _ => "array"
  | .obj _ => "object"

/-- The member of an object with the given name. -/
def member? (name : String) : Json → Option Json
  | .obj members => Assoc.lookup name members
  | _ => none

end Json

end FlowTally
