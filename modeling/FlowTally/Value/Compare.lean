import FlowTally.Value.Basic

/-!
# The order of values

Results are ordered by the values of one column. Values of one type compare in
their own order, floating-point numbers in the total order of their words; values
of different types compare by type. An absent value precedes all others. The order
of addresses has two settings, each the reverse of the other.
-/

namespace FlowTally

/-- How addresses compare. -/
inductive AddressOrdering where
  /-- The longer family first, then from the highest address down. -/
  | legacy
  /-- The shorter family first, then from the lowest address up. -/
  | numeric
deriving DecidableEq, Repr

/-- The order of addresses under a setting. -/
def AddressOrdering.compare (ordering : AddressOrdering) (a b : Address) : Ordering :=
  match ordering with
  | .numeric => a.compareNumeric b
  | .legacy => b.compareNumeric a

/-- Compares two lists element by element, by numbers; a list precedes its
extensions. -/
def compareLists {α : Type} (key : α → Nat) : List α → List α → Ordering
  | [], [] => .eq
  | [], _ :: _ => .lt
  | _ :: _, [] => .gt
  | a :: as, b :: bs => (compare (key a) (key b)).then (compareLists key as bs)

/-- The place of a type among the types. -/
def ValueType.rank : ValueType → Nat
  | .u8 => 0
  | .u16 => 1
  | .u32 => 2
  | .u64 => 3
  | .f64 => 4
  | .timestamp => 5
  | .addr => 6
  | .mac => 7
  | .string => 8
  | .blob => 9

namespace Value

/-- The order of two present values. -/
def compare (ordering : AddressOrdering) : Value → Value → Ordering
  | .u8 a, .u8 b => Ord.compare a.toNat b.toNat
  | .u16 a, .u16 b => Ord.compare a.toNat b.toNat
  | .u32 a, .u32 b => Ord.compare a.toNat b.toNat
  | .u64 a, .u64 b => Ord.compare a.toNat b.toNat
  | .f64 a, .f64 b => a.totalCompare b
  | .timestamp a, .timestamp b => a.compare b
  | .addr a, .addr b => ordering.compare a b
  | .mac a, .mac b => compareLists UInt8.toNat a.bytes b.bytes
  | .string a, .string b => compareLists Char.toNat a.toList b.toList
  | .blob a, .blob b => compareLists UInt8.toNat a b
  | a, b => Ord.compare a.type.rank b.type.rank

/-- The order of two values of which either may be absent. -/
def compareOption (ordering : AddressOrdering) : Option Value → Option Value → Ordering
  | none, none => .eq
  | none, some _ => .lt
  | some _, none => .gt
  | some a, some b => a.compare ordering b

end Value

end FlowTally
