import FlowTally.Proofs.Decimal.TotalOrder
import FlowTally.Proofs.Value.Order

/-!
# Only one value stands at a place

The numbers that tell the place of a value tell the value, so values that compare equal are
identical and the order of values is total. The two settings for addresses turn the order of two
addresses around and agree on everything else.
-/

namespace FlowTally

namespace AddressOrdering

/-- The place of an address tells it. -/
theorem place_injective {ordering : AddressOrdering} {a b : Address}
    (h : ordering.place a = ordering.place b) : a = b := by
  cases ordering <;> cases a <;> cases b <;> simp_all [place, BitVec.toNat_inj]

/-- Each of the two settings is the reverse of the other. -/
theorem compare_legacy (a b : Address) : legacy.compare a b = (numeric.compare a b).swap := by
  have hturned : legacy.compare a b = numeric.compare b a := rfl
  rw [hturned, compare_eq, compare_eq]
  exact Std.OrientedCmp.eq_swap

end AddressOrdering

namespace Value

/-- Lists are told by the numbers of their elements if each element is told by its own. -/
theorem map_natCast_injective {α : Type} {key : α → Nat} (hkey : Function.Injective key)
    {as bs : List α} (h : as.map (fun a => (key a : Int)) = bs.map fun b => (key b : Int)) :
    as = bs :=
  (Function.Injective.comp Int.ofNat_injective hkey).list_map h

/-- Values of one type are told by their numbers. -/
theorem body_injective {ordering : AddressOrdering} {v w : Value} (htype : v.type = w.type)
    (h : v.body ordering = w.body ordering) : v = w := by
  cases v <;> cases w <;> cases htype
  case f64 x y =>
    exact congrArg Value.f64 (Binary64.orderKey_injective (List.singleton_inj.mp h))
  case timestamp t u =>
    obtain ⟨hsecond, htail⟩ := List.cons.inj h
    have hnano : t.nano = u.nano := Int.ofNat.inj (List.singleton_inj.mp htail)
    cases t
    cases u
    cases hsecond
    cases hnano
    rfl
  case addr a b => exact congrArg Value.addr (AddressOrdering.place_injective h)
  case mac m n =>
    have hbytes : m.bytes = n.bytes := map_natCast_injective (fun _ _ => UInt8.toNat_inj.mp) h
    cases m
    cases n
    cases hbytes
    rfl
  case string s t =>
    exact congrArg Value.string
      (String.toList_inj.mp (map_natCast_injective (fun _ _ => Char.toNat_inj.mp) h))
  case blob bytes bytes' =>
    exact congrArg Value.blob (map_natCast_injective (fun _ _ => UInt8.toNat_inj.mp) h)
  case u8 m n =>
    exact congrArg Value.u8 (UInt8.toNat_inj.mp (Int.ofNat.inj (List.singleton_inj.mp h)))
  case u16 m n =>
    exact congrArg Value.u16 (UInt16.toNat_inj.mp (Int.ofNat.inj (List.singleton_inj.mp h)))
  case u32 m n =>
    exact congrArg Value.u32 (UInt32.toNat_inj.mp (Int.ofNat.inj (List.singleton_inj.mp h)))
  case u64 m n =>
    exact congrArg Value.u64 (UInt64.toNat_inj.mp (Int.ofNat.inj (List.singleton_inj.mp h)))

/-- The place of a value that may be absent tells it. -/
theorem placeOption_injective {ordering : AddressOrdering} {a b : Option Value}
    (h : placeOption ordering a = placeOption ordering b) : a = b := by
  cases a with
  | none =>
    cases b with
    | none => rfl
    | some w => exact absurd h.symm (List.cons_ne_nil _ _)
  | some v =>
    cases b with
    | none => exact absurd h (List.cons_ne_nil _ _)
    | some w =>
      obtain ⟨hrank, hbody⟩ := List.cons.inj h
      have htype : v.type = w.type := rank_injective (Int.ofNat.inj hrank)
      rw [body_injective htype hbody]

/-- Values that compare equal are identical. -/
instance lawfulEqCmp_compareOption (ordering : AddressOrdering) :
    Std.LawfulEqCmp (compareOption ordering) where
  eq_of_compare {a b} h := by
    rw [compareOption_eq] at h
    exact placeOption_injective (Std.LawfulEqCmp.eq_of_compare h)

/-- The setting for addresses matters to two addresses only. -/
theorem compare_legacy_eq_numeric {v w : Value} (h : ∀ x y, ¬(v = .addr x ∧ w = .addr y)) :
    v.compare .legacy w = v.compare .numeric w := by
  cases v <;> cases w <;> first | rfl | exact absurd ⟨rfl, rfl⟩ (h _ _)

/-- The setting for addresses matters to two addresses that are present only. -/
theorem compareOption_legacy_eq_numeric {a b : Option Value}
    (h : ∀ x y, ¬(a = some (.addr x) ∧ b = some (.addr y))) :
    compareOption .legacy a b = compareOption .numeric a b := by
  cases a with
  | none => cases b <;> rfl
  | some v =>
    cases b with
    | none => rfl
    | some w => exact compare_legacy_eq_numeric fun x y ⟨hx, hy⟩ => h x y ⟨hx ▸ rfl, hy ▸ rfl⟩

/-- Under either setting for addresses the order of values, of which any may be absent, is a total
order. Turning two values around turns their comparison around, what is not behind what is not
behind a value is not behind it, and only identical values compare equal. An absent value stands in
front of all others. Floating-point numbers are identical if their bits are, and stand in the total
order of their format. The settings reverse each other on two addresses of any families and agree
on any other two values. -/
theorem compareOption_total_order (ordering : AddressOrdering) (a b c : Option Value) :
    compareOption ordering a b = (compareOption ordering b a).swap ∧
    ((compareOption ordering a b).isLE = true → (compareOption ordering b c).isLE = true →
      (compareOption ordering a c).isLE = true) ∧
    (compareOption ordering a b = .eq ↔ a = b) ∧
    (∀ v, compareOption ordering none (some v) = .lt) ∧
    (∀ x y : Binary64,
      (compareOption ordering (some (.f64 x)) (some (.f64 y)) = .eq ↔ x.bits = y.bits) ∧
      (compareOption ordering (some (.f64 x)) (some (.f64 y)) = .lt ↔ x.Precedes y)) ∧
    (∀ x y : Address, compareOption .legacy (some (.addr x)) (some (.addr y)) =
      (compareOption .numeric (some (.addr x)) (some (.addr y))).swap) ∧
    ((∃ x y, a = some (.addr x) ∧ b = some (.addr y)) ∨
      compareOption .legacy a b = compareOption .numeric a b) := by
  refine ⟨Std.OrientedCmp.eq_swap, Std.TransCmp.isLE_trans, Std.LawfulEqCmp.compare_eq_iff_eq,
    fun _ => rfl, fun x y => ⟨?_, ?_⟩, AddressOrdering.compare_legacy, ?_⟩
  · have hbits : x = y ↔ x.bits = y.bits :=
      ⟨congrArg Binary64.bits, fun h => congrArg Binary64.mk h⟩
    rw [Std.LawfulEqCmp.compare_eq_iff_eq, Option.some.injEq, Value.f64.injEq, hbits]
  · exact Binary64.totalCompare_eq_lt_iff
  · by_cases hother : ∀ x y, ¬(a = some (.addr x) ∧ b = some (.addr y))
    · exact .inr (compareOption_legacy_eq_numeric hother)
    · simp only [not_forall, not_not] at hother
      exact .inl hother

/-- Two long addresses and a short one, from the highest long one to the short one. -/
theorem compareOption_families :
    let high : Option Value := some (.addr (.v6 5))
    let low : Option Value := some (.addr (.v6 3))
    let short : Option Value := some (.addr (.v4 9))
    (compareOption .legacy high low).isLE = true ∧ (compareOption .legacy low short).isLE = true ∧
      (compareOption .legacy high short).isLE = true := by
  intro high low short
  have hlong : (compareOption .legacy high low).isLE = true := by decide
  have hshort : (compareOption .legacy low short).isLE = true := by decide
  obtain ⟨-, htrans, -⟩ := compareOption_total_order .legacy high low short
  exact ⟨hlong, hshort, htrans hlong hshort⟩

end Value

end FlowTally
