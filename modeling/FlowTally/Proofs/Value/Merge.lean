import FlowTally.Value.Merge
import Mathlib.Logic.Function.Basic
import Mathlib.Order.Lattice

/-!
# Merging in any order

The order in which values are merged does not matter unless the first one is to stay or
the values are floating-point numbers. An operation on words or points in time is free of
order; so is the merge of the values of a column, whatever value they are merged into.
-/

namespace FlowTally

/-- Operands may be taken in any order. -/
structure OrderFree {α : Type} (f : α → α → α) : Prop where
  /-- Two operands may change places. -/
  comm : ∀ a b, f a b = f b a
  /-- So may two operands that follow a first one. -/
  right_comm : ∀ a b c, f (f a b) c = f (f a c) b

namespace OrderFree

/-- An associative and commutative operation is free of order. -/
theorem of_comm {α : Type} {f : α → α → α} [hassoc : Std.Associative f]
    [hcomm : Std.Commutative f] : OrderFree f where
  comm := hcomm.comm
  right_comm a b c := by rw [hassoc.assoc, hcomm.comm b c, ← hassoc.assoc]

/-- An operation that an injection carries to one free of order is free of order. -/
theorem of_injective {α β : Type} {f : α → α → α} {g : β → β → β} {rank : α → β}
    (hrank : Function.Injective rank) (hcarry : ∀ a b, rank (f a b) = g (rank a) (rank b))
    (hg : OrderFree g) : OrderFree f where
  comm a b := hrank (by rw [hcarry, hcarry, hg.comm])
  right_comm a b c := hrank (by rw [hcarry, hcarry, hcarry, hcarry, hg.right_comm])

/-- The smaller of two elements of a linear order is free of order. -/
theorem min {α : Type} [LinearOrder α] : OrderFree (Min.min : α → α → α) := of_comm

/-- The greater of two elements of a linear order is free of order. -/
theorem max {α : Type} [LinearOrder α] : OrderFree (Max.max : α → α → α) := of_comm

end OrderFree

namespace Instant

/-- The nanoseconds of a point in time, with room for a leap second in every second. -/
def rank (t : Instant) : Int := t.second * 2000000000 + t.nano

/-- No two points have one rank. -/
theorem rank_injective : Function.Injective rank := by
  intro a b h
  have ha := a.nano_lt
  have hb := b.nano_lt
  unfold rank at h
  obtain ⟨second, nano, _, _, _⟩ := a
  obtain ⟨second', nano', _, _, _⟩ := b
  dsimp only at h ha hb
  obtain rfl : second = second' := by omega
  obtain rfl : nano = nano' := by omega
  rfl

/-- One point precedes another exactly if its rank is smaller. -/
theorem compare_eq_lt_iff (a b : Instant) : a.compare b = .lt ↔ a.rank < b.rank := by
  have ha := a.nano_lt
  have hb := b.nano_lt
  rw [compare, Ordering.then_eq_lt, Int.compare_eq_lt, Int.compare_eq_eq, Nat.compare_eq_lt, rank,
    rank]
  omega

/-- The earlier point has the smaller rank. -/
theorem rank_min (a b : Instant) : (a.min b).rank = Min.min a.rank b.rank := by
  rw [min]
  split
  · next h => rw [min_eq_right ((compare_eq_lt_iff b a).mp h).le]
  · next h => rw [min_eq_left (not_lt.mp (mt (compare_eq_lt_iff b a).mpr h))]

/-- The later point has the greater rank. -/
theorem rank_max (a b : Instant) : (a.max b).rank = Max.max a.rank b.rank := by
  rw [max]
  split
  · next h => rw [max_eq_left ((compare_eq_lt_iff b a).mp h).le]
  · next h => rw [max_eq_right (not_lt.mp (mt (compare_eq_lt_iff b a).mpr h))]

/-- The earlier point is free of order. -/
theorem orderFree_min : OrderFree min := .of_injective rank_injective rank_min .min

/-- The later point is free of order. -/
theorem orderFree_max : OrderFree max := .of_injective rank_injective rank_max .max

end Instant

namespace Merge

/-- Whether values of a type may be merged in any order. -/
def Free (op : Merge) : ValueType → Prop
  | .u8 | .u16 | .u32 | .u64 => op ≠ .keep
  | .timestamp => op = .min ∨ op = .max
  | _ => False

/-- What is resolved for a type other than that of the floating-point numbers is free of
order unless it keeps the first value. -/
theorem free_resolve {kind : Aggregation} {type : ValueType} (htype : type ≠ .f64)
    (hkeep : resolve kind type ≠ .keep) : (resolve kind type).Free type := by
  cases type with
  | u8 => exact hkeep
  | u16 => exact hkeep
  | u32 => exact hkeep
  | u64 => exact hkeep
  | f64 => exact absurd rfl htype
  | timestamp =>
    cases kind with
    | min => exact .inl rfl
    | max => exact .inr rfl
    | _ => exact absurd rfl hkeep
  | _ => cases kind <;> exact absurd rfl hkeep

/-- A merge of words is free of order unless it keeps the first. -/
theorem orderFree_words {α : Type} [Min α] [Max α] {add union : α → α → α} {rank : α → Nat}
    (hadd : OrderFree add) (hunion : OrderFree union) (hrank : Function.Injective rank)
    (hmin : ∀ a b, rank (Min.min a b) = Min.min (rank a) (rank b))
    (hmax : ∀ a b, rank (Max.max a b) = Max.max (rank a) (rank b)) {op : Merge}
    (hop : op ≠ .keep) : OrderFree (op.words add union Min.min Max.max) := by
  cases op with
  | min => exact .of_injective hrank hmin .min
  | max => exact .of_injective hrank hmax .max
  | sum => exact hadd
  | or => exact hunion
  | keep => exact absurd rfl hop

/-- A merge of points in time is free of order if it takes the earlier or the later. -/
theorem orderFree_instants {op : Merge} (hop : op = .min ∨ op = .max) :
    OrderFree op.instants := by
  rcases hop with rfl | rfl
  · exact Instant.orderFree_min
  · exact Instant.orderFree_max

/-- The values of one type are merged by an operation on what they hold. -/
structure Carries {α : Type} (op : Merge) (type : ValueType) (wrap : α → Value)
    (f : α → α → α) : Prop where
  /-- Each value of the type holds something. -/
  exists_wrap : ∀ v : Value, v.type = type → ∃ a, v = wrap a
  /-- What two values hold is merged. -/
  combine_wrap : ∀ a b, op.combine (wrap a) (wrap b) = wrap (f a b)

/-- A merge that is free of order is an operation that is. -/
theorem Free.exists_carries {op : Merge} {type : ValueType} (hop : op.Free type) :
    ∃ (α : Type) (wrap : α → Value) (f : α → α → α), OrderFree f ∧ op.Carries type wrap f := by
  cases type with
  | u8 =>
    have hfree : OrderFree
        (op.words (· + ·) (· ||| ·) Min.min Max.max : UInt8 → UInt8 → UInt8) :=
      orderFree_words .of_comm .of_comm (fun _ _ => UInt8.toNat_inj.mp) UInt8.toNat_min
        UInt8.toNat_max hop
    refine ⟨UInt8, .u8, _, hfree, fun v hv => ?_, fun _ _ => rfl⟩
    cases v <;> first | exact ⟨_, rfl⟩ | cases hv
  | u16 =>
    have hfree : OrderFree
        (op.words (· + ·) (· ||| ·) Min.min Max.max : UInt16 → UInt16 → UInt16) :=
      orderFree_words .of_comm .of_comm (fun _ _ => UInt16.toNat_inj.mp) UInt16.toNat_min
        UInt16.toNat_max hop
    refine ⟨UInt16, .u16, _, hfree, fun v hv => ?_, fun _ _ => rfl⟩
    cases v <;> first | exact ⟨_, rfl⟩ | cases hv
  | u32 =>
    have hfree : OrderFree
        (op.words (· + ·) (· ||| ·) Min.min Max.max : UInt32 → UInt32 → UInt32) :=
      orderFree_words .of_comm .of_comm (fun _ _ => UInt32.toNat_inj.mp) UInt32.toNat_min
        UInt32.toNat_max hop
    refine ⟨UInt32, .u32, _, hfree, fun v hv => ?_, fun _ _ => rfl⟩
    cases v <;> first | exact ⟨_, rfl⟩ | cases hv
  | u64 =>
    have hfree : OrderFree
        (op.words (· + ·) (· ||| ·) Min.min Max.max : UInt64 → UInt64 → UInt64) :=
      orderFree_words .of_comm .of_comm (fun _ _ => UInt64.toNat_inj.mp) UInt64.toNat_min
        UInt64.toNat_max hop
    refine ⟨UInt64, .u64, _, hfree, fun v hv => ?_, fun _ _ => rfl⟩
    cases v <;> first | exact ⟨_, rfl⟩ | cases hv
  | timestamp =>
    refine ⟨Instant, .timestamp, _, orderFree_instants hop, fun v hv => ?_, fun _ _ => rfl⟩
    cases v <;> first | exact ⟨_, rfl⟩ | cases hv
  | _ => exact hop.elim

/-- Nothing is merged into a value of another type. -/
theorem combine_of_type_ne (op : Merge) {z x : Value} (h : z.type ≠ x.type) :
    op.combine z x = z := by
  cases z <;> cases x <;> first | rfl | exact absurd rfl h

variable {op : Merge} {type : ValueType}

/-- Two values of a type that is free of order may change places. -/
theorem Free.combine_comm (hop : op.Free type) {x y : Value} (hx : x.type = type)
    (hy : y.type = type) : op.combine x y = op.combine y x := by
  obtain ⟨α, wrap, f, hf, hcarries⟩ := hop.exists_carries
  obtain ⟨a, rfl⟩ := hcarries.exists_wrap x hx
  obtain ⟨b, rfl⟩ := hcarries.exists_wrap y hy
  rw [hcarries.combine_wrap, hcarries.combine_wrap, hf.comm]

/-- Two values of a type that is free of order may change places behind any value. -/
theorem Free.combine_right_comm (hop : op.Free type) (z : Value) {x y : Value}
    (hx : x.type = type) (hy : y.type = type) :
    op.combine (op.combine z x) y = op.combine (op.combine z y) x := by
  by_cases hz : z.type = type
  · obtain ⟨α, wrap, f, hf, hcarries⟩ := hop.exists_carries
    obtain ⟨a, rfl⟩ := hcarries.exists_wrap x hx
    obtain ⟨b, rfl⟩ := hcarries.exists_wrap y hy
    obtain ⟨c, rfl⟩ := hcarries.exists_wrap z hz
    rw [hcarries.combine_wrap, hcarries.combine_wrap, hcarries.combine_wrap,
      hcarries.combine_wrap, hf.right_comm]
  · have hzx : z.type ≠ x.type := hx ▸ hz
    have hzy : z.type ≠ y.type := hy ▸ hz
    rw [combine_of_type_ne op hzx, combine_of_type_ne op hzy, combine_of_type_ne op hzx]

/-- Two additions of a type that is free of order may change places, also where there is
nothing to add or nothing to add to. -/
theorem Free.apply_right_comm (hop : op.Free type) (z : Option Value) {x y : Option Value}
    (hx : ∀ v, x = some v → v.type = type) (hy : ∀ v, y = some v → v.type = type) :
    op.apply (op.apply z x) y = op.apply (op.apply z y) x := by
  cases x with
  | none => rw [apply_none, apply_none]
  | some x =>
    cases y with
    | none => rw [apply_none, apply_none]
    | some y =>
      cases z with
      | none => exact congrArg some (hop.combine_comm (hx x rfl) (hy y rfl))
      | some z => exact congrArg some (hop.combine_right_comm z (hx x rfl) (hy y rfl))

end Merge

end FlowTally
