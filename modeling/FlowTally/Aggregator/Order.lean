import FlowTally.Aggregator.Derived
import FlowTally.Value.Compare

/-!
# The order of results

Groups are ordered by the value of the sort column in its direction, and groups
with equal values by the text of their key. Without a sort column the key decides
alone. Derived values are computed first, since a derived field may be the sort
column.
-/

namespace FlowTally

namespace Layout

/-- The value that a group is ordered by. -/
def sortValue (l : Layout) (t : Tally) : Option Value :=
  l.sortColumn.bind fun c => t.at? (c.part, c.position)

/-- Whether one group stands in front of another or at its place. -/
def inOrder (l : Layout) (ordering : AddressOrdering) (a b : String × Tally) : Bool :=
  let byValue : Ordering := match l.sortColumn with
    | none => .eq
    | some c =>
      let o := Value.compareOption ordering (l.sortValue a.2) (l.sortValue b.2)
      if c.order = .desc then o.swap else o
  match byValue with
  | .lt => true
  | .gt => false
  | .eq => a.1 ≤ b.1

end Layout

namespace TallyTable

/-- The table with its derived values computed, and the keys in the order of the
results. -/
def rebuild (t : TallyTable) (l : Layout) (ordering : AddressOrdering) :
    TallyTable × List String :=
  let filled := t.mapTallies (Derived.fill l)
  (filled, (filled.entries.mergeSort (l.inOrder ordering)).map (·.1))

end TallyTable

end FlowTally
