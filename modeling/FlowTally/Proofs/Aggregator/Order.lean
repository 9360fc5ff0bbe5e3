import FlowTally.Aggregator.Order
import FlowTally.Proofs.Aggregator.Table
import FlowTally.Proofs.Value.Order

/-!
# The order of the results

Groups are compared by the value of the sort column in its direction and then by the text
of their key, so only groups with one key stand at one place. There is therefore one way to
put the groups of a table in order, in whatever order they were visited and however they
were sorted.
-/

namespace FlowTally

namespace Layout

variable (l : Layout) (ordering : AddressOrdering)

/-- Compares two groups by the sort column, in its direction. -/
def compareValues (a b : String × Tally) : Ordering :=
  match l.sortColumn with
  | none => .eq
  | some c =>
    if c.order = .desc then Value.compareOption ordering (l.sortValue b.2) (l.sortValue a.2)
    else Value.compareOption ordering (l.sortValue a.2) (l.sortValue b.2)

/-- Comparing by the sort column has the laws of a comparison. -/
instance transCmp_compareValues : Std.TransCmp (l.compareValues ordering) where
  eq_swap {a b} := by
    unfold compareValues
    split
    · rfl
    · split <;> exact Std.OrientedCmp.eq_swap
  isLE_trans {a b c} hab hbc := by
    unfold compareValues at *
    split
    · rfl
    · split
      · simp_all only [if_true]
        exact Std.TransCmp.isLE_trans hbc hab
      · simp_all only [if_false]
        exact Std.TransCmp.isLE_trans hab hbc

/-- Compares two groups by the sort column and then by the text of their key. -/
def compareGroups : String × Tally → String × Tally → Ordering :=
  compareLex (l.compareValues ordering) (compareOn Prod.fst)

/-- Comparing groups has the laws of a comparison. -/
instance transCmp_compareGroups : Std.TransCmp (l.compareGroups ordering) :=
  inferInstanceAs (Std.TransCmp (compareLex _ _))

/-- Groups that compare equal stand under one key. -/
theorem key_eq_of_compareGroups {a b : String × Tally} (h : l.compareGroups ordering a b = .eq) :
    a.1 = b.1 :=
  Std.LawfulEqCmp.eq_of_compare (Ordering.then_eq_eq.mp h).2

/-- Groups are in order if they compare so. -/
theorem inOrder_eq (a b : String × Tally) :
    l.inOrder ordering a b = (l.compareGroups ordering a b).isLE := by
  have hkey : (compare a.1 b.1).isLE = decide (a.1 ≤ b.1) := by
    rw [Bool.eq_iff_iff, decide_eq_true_eq, Ordering.isLE_iff_ne_gt]
    exact compare_le_iff_le
  unfold inOrder compareGroups compareLex compareOn compareValues
  cases l.sortColumn with
  | none => exact hkey.symm
  | some c =>
    dsimp only
    rw [← Std.OrientedCmp.eq_swap]
    generalize (if c.order = .desc
      then Value.compareOption ordering (l.sortValue b.2) (l.sortValue a.2)
      else Value.compareOption ordering (l.sortValue a.2) (l.sortValue b.2)) = byValue
    cases byValue with
    | lt => rfl
    | gt => rfl
    | eq => exact hkey.symm

end Layout

namespace TallyTable

/-- The groups with their derived values, in the order of the results. -/
def ordered (t : TallyTable) (l : Layout) (ordering : AddressOrdering) : List (String × Tally) :=
  (t.mapTallies (Derived.fill l)).entries.mergeSort (l.inOrder ordering)

section

variable {t u : TallyTable} {l : Layout} {ordering : AddressOrdering}

/-- Rebuilding lists the keys of the groups in order. -/
theorem rebuild_eq : t.rebuild l ordering =
    (t.mapTallies (Derived.fill l), (t.ordered l ordering).map (·.1)) := rfl

/-- The groups in order are those of the table with their derived values. -/
theorem ordered_perm : (t.ordered l ordering).Perm (t.mapTallies (Derived.fill l)).entries :=
  List.mergeSort_perm _ _

/-- There are as many groups in order as in the table. -/
theorem length_ordered : (t.ordered l ordering).length = t.size := by
  rw [ordered_perm.length_eq, ← size, size_mapTallies]

/-- The groups in order are in order. -/
theorem pairwise_ordered :
    (t.ordered l ordering).Pairwise fun a b => l.inOrder ordering a b = true := by
  refine List.pairwise_mergeSort (fun a b c hab hbc => ?_) (fun a b => ?_) _
  · rw [Layout.inOrder_eq] at *
    exact Std.TransCmp.isLE_trans hab hbc
  · have hswap : l.compareGroups ordering b a = (l.compareGroups ordering a b).swap :=
      Std.OrientedCmp.eq_swap
    rw [Layout.inOrder_eq, Layout.inOrder_eq, hswap]
    cases l.compareGroups ordering a b <;> rfl

/-- No key stands twice among the groups in order. -/
theorem Placed.nodup_ordered (h : t.Placed) : ((t.ordered l ordering).map (·.1)).Nodup :=
  (ordered_perm.map _).nodup_iff.mpr (h.mapTallies _).nodup_keys

/-- A group stands in the order if it is found with its derived values. -/
theorem Placed.mem_ordered_iff (h : t.Placed) {key : String} {tally : Tally} :
    (key, tally) ∈ t.ordered l ordering ↔
      (t.find? key).map (Derived.fill l) = some tally := by
  rw [ordered_perm.mem_iff, (h.mapTallies _).mem_entries_iff, find?_mapTallies]

/-- There is one way to put the groups of a table in order. -/
theorem Placed.eq_ordered (h : t.Placed) {sorted : List (String × Tally)}
    (hperm : sorted.Perm (t.mapTallies (Derived.fill l)).entries)
    (hsorted : sorted.Pairwise fun a b => l.inOrder ordering a b = true) :
    sorted = t.ordered l ordering := by
  have hall : sorted.Perm (t.ordered l ordering) := hperm.trans ordered_perm.symm
  refine hall.eq_of_pairwise (fun a b ha hb hab hba => ?_) hsorted pairwise_ordered
  rw [Layout.inOrder_eq] at hab hba
  have hkey : a.1 = b.1 :=
    l.key_eq_of_compareGroups ordering (Std.OrientedCmp.isLE_antisymm hab hba)
  have hfirst := h.mem_ordered_iff.mp (hall.mem_iff.mp ha)
  have hsecond := h.mem_ordered_iff.mp hb
  rw [hkey, hsecond] at hfirst
  exact Prod.ext hkey (Option.some.inj hfirst).symm

/-- The keys that a table lists when its groups are visited in any order, their derived values
are filled in, and they are then sorted in any way. -/
def Lists (t : TallyTable) (l : Layout) (ordering : AddressOrdering) (keys : List String) : Prop :=
  ∃ visited sorted : List (String × Tally), visited.Perm t.entries ∧
    sorted.Perm (visited.map fun e => (e.1, Derived.fill l e.2)) ∧
    (sorted.Pairwise fun a b => l.inOrder ordering a b = true) ∧ sorted.map (·.1) = keys

/-- A table lists what rebuilding it lists and nothing else. -/
theorem Placed.lists_iff (h : t.Placed) {keys : List String} :
    t.Lists l ordering keys ↔ keys = (t.rebuild l ordering).2 := by
  constructor
  · rintro ⟨visited, sorted, hvisited, hfilled, hsorted, rfl⟩
    have hperm : sorted.Perm (t.mapTallies (Derived.fill l)).entries := by
      rw [entries_mapTallies]
      exact hfilled.trans (hvisited.map _)
    rw [h.eq_ordered hperm hsorted, rebuild_eq]
  · rintro rfl
    refine ⟨t.entries, t.ordered l ordering, .refl _, ?_, pairwise_ordered, rfl⟩
    rw [← entries_mapTallies]
    exact ordered_perm

end

end TallyTable

end FlowTally
