import FlowTally.Value.Compare
import Mathlib.Data.List.Sort

/-!
# The order of values is a total order

A value has a place: its type, then the numbers by which values of that type are told
apart. Comparing two values is comparing their places number by number, so the order of
values has the laws of a comparison under either order of addresses.
-/

namespace FlowTally

/-- Comparing natural numbers is comparing them as integers. -/
theorem compare_natCast (a b : Nat) : compare (a : Int) (b : Int) = compare a b := by
  rw [Nat.compare_eq_ite_lt, Int.compare_eq_ite_lt]
  simp only [Int.ofNat_lt]

/-- Changing both signs turns a comparison around. -/
theorem compare_neg (a b : Int) : compare (-a) (-b) = compare b a := by
  rw [Int.compare_eq_ite_lt, Int.compare_eq_ite_lt]
  simp only [Int.neg_lt_neg_iff]

/-- Lists compare by their first elements, and where these are equal by the others. -/
theorem compare_cons (x y : Int) (xs ys : List Int) :
    compare (x :: xs) (y :: ys) = (compare x y).then (compare xs ys) :=
  List.compareLex_cons_cons

/-- Lists of one number compare by it. -/
theorem compare_singleton (x y : Int) : compare [x] [y] = compare x y := by
  rw [compare_cons, Std.ReflOrd.compare_self, Ordering.then_eq]

/-- Comparing lists by numbers is comparing the lists of the numbers. -/
theorem compareLists_eq {α : Type} (key : α → Nat) (as bs : List α) :
    compareLists key as bs =
      compare (as.map fun a => (key a : Int)) (bs.map fun b => (key b : Int)) := by
  induction as generalizing bs with
  | nil => cases bs <;> rfl
  | cons a as ih =>
    cases bs with
    | nil => rfl
    | cons b bs =>
      rw [compareLists, ih, ← compare_natCast, List.map_cons, List.map_cons, compare_cons]

/-- The numbers that tell an address under an order of addresses. -/
def AddressOrdering.place : AddressOrdering → Address → List Int
  | .numeric, .v4 word => [0, word.toNat]
  | .numeric, .v6 word => [1, word.toNat]
  | .legacy, .v4 word => [0, -word.toNat]
  | .legacy, .v6 word => [-1, -word.toNat]

/-- Comparing addresses is comparing their places. -/
theorem AddressOrdering.compare_eq (ordering : AddressOrdering) (a b : Address) :
    ordering.compare a b = Ord.compare (ordering.place a) (ordering.place b) := by
  have hnumber : ∀ (i x y : Int), Ord.compare [i, x] [i, y] = Ord.compare x y := by
    intro i x y
    rw [compare_cons, Std.ReflOrd.compare_self, Ordering.eq_then, compare_singleton]
  cases ordering with
  | numeric =>
    cases a <;> cases b
    · exact (compare_natCast _ _).symm.trans (hnumber _ _ _).symm
    · rfl
    · rfl
    · exact (compare_natCast _ _).symm.trans (hnumber _ _ _).symm
  | legacy =>
    cases a <;> cases b
    · exact (compare_natCast _ _).symm.trans ((compare_neg _ _).symm.trans (hnumber _ _ _).symm)
    · rfl
    · rfl
    · exact (compare_natCast _ _).symm.trans ((compare_neg _ _).symm.trans (hnumber _ _ _).symm)

namespace Value

/-- The numbers that tell a value among those of its type. -/
def body (ordering : AddressOrdering) : Value → List Int
  | .u8 n => [n.toNat]
  | .u16 n => [n.toNat]
  | .u32 n => [n.toNat]
  | .u64 n => [n.toNat]
  | .f64 x => [x.orderKey]
  | .timestamp t => [t.second, t.nano]
  | .addr a => ordering.place a
  | .mac m => m.bytes.map fun byte => (byte.toNat : Int)
  | .string s => s.toList.map fun c => (c.toNat : Int)
  | .blob bytes => bytes.map fun byte => (byte.toNat : Int)

/-- The place of a value among all values. -/
def place (ordering : AddressOrdering) (v : Value) : List Int :=
  (v.type.rank : Int) :: v.body ordering

/-- Values of one type compare by their numbers. -/
theorem compare_eq_body {ordering : AddressOrdering} {v w : Value} (h : v.type = w.type) :
    v.compare ordering w = Ord.compare (v.body ordering) (w.body ordering) := by
  cases v <;> cases w <;> cases h
  case f64 x y => exact (compare_singleton _ _).symm
  case timestamp t u =>
    rw [body, body, compare_cons, compare_singleton, compare_natCast]
    rfl
  case addr a b => exact ordering.compare_eq a b
  case mac m n => exact compareLists_eq UInt8.toNat m.bytes n.bytes
  case string s t => exact compareLists_eq Char.toNat s.toList t.toList
  case blob bytes bytes' => exact compareLists_eq UInt8.toNat bytes bytes'
  all_goals exact (compare_natCast _ _).symm.trans (compare_singleton _ _).symm

/-- Values of different types compare by their types. -/
theorem compare_eq_rank {ordering : AddressOrdering} {v w : Value} (h : v.type ≠ w.type) :
    v.compare ordering w = Ord.compare v.type.rank w.type.rank := by
  cases v <;> cases w <;> first | rfl | exact absurd rfl h

/-- Types of one rank are equal. -/
theorem rank_injective {s t : ValueType} (h : s.rank = t.rank) : s = t := by
  cases s <;> cases t <;> first | rfl | cases h

/-- Comparing values is comparing their places. -/
theorem compare_eq_place (ordering : AddressOrdering) (v w : Value) :
    v.compare ordering w = Ord.compare (v.place ordering) (w.place ordering) := by
  rw [place, place, compare_cons]
  by_cases htype : v.type = w.type
  · rw [compare_eq_body htype, htype, Std.ReflOrd.compare_self, Ordering.eq_then]
  · have hrank : Ord.compare (v.type.rank : Int) w.type.rank ≠ .eq := by
      intro heq
      have hsame := Std.LawfulEqCmp.eq_of_compare heq
      exact htype (rank_injective (Int.ofNat.inj hsame))
    rw [compare_eq_rank htype, ← compare_natCast]
    cases hcompare : Ord.compare (v.type.rank : Int) w.type.rank with
    | eq => exact absurd hcompare hrank
    | _ => rfl

/-- The place of a value that may be absent: an absent one precedes all others. -/
def placeOption (ordering : AddressOrdering) : Option Value → List Int
  | none => []
  | some v => v.place ordering

/-- Comparing values of which either may be absent is comparing their places. -/
theorem compareOption_eq (ordering : AddressOrdering) :
    compareOption ordering = compareOn (placeOption ordering) := by
  funext v w
  cases v with
  | none => cases w <;> rfl
  | some v =>
    cases w with
    | none => rfl
    | some w => exact compare_eq_place ordering v w

/-- The order of values has the laws of a comparison. -/
instance transCmp_compareOption (ordering : AddressOrdering) :
    Std.TransCmp (compareOption ordering) := by
  rw [compareOption_eq]
  infer_instance

end Value

end FlowTally
