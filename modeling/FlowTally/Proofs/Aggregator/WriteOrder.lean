import FlowTally.Proofs.Aggregator.Counting
import FlowTally.Proofs.Aggregator.Fit
import FlowTally.Proofs.Aggregator.Grouping
import FlowTally.Proofs.Aggregator.Kept
import FlowTally.Proofs.Value.KeyText
import FlowTally.Proofs.Value.Merge

/-!
# Where the order of the writes leaves no trace

Let every merged value be derived or have a merge other than keeping the first, and let no
floating-point number be grouped by. Then the results depend on which records were written but
not on their order, as long as the key of a group tells its key values. The values of a group are
merged in any order; the derived ones are filled in from those; and the counters count the shares
of the records. The key leaves one thing open. A point in time that goes past the end of a second
inside a minute is written like the point in the next second, and a group shows the one that came
first. So the order leaves no trace exactly if no group of the records has both.
-/

namespace FlowTally

/-- Records may come in any order. -/
structure Layout.AnyOrder (l : Layout) : Prop where
  /-- No floating-point number is grouped by. -/
  key : ∀ c ∈ l.key, c.type ≠ .f64
  /-- No merged value is the first one that came, unless it is derived. -/
  value : ∀ c ∈ l.value, c.field.isDerived = true ∨ c.merge ≠ .keep

/-- The fields whose values are floating-point numbers are derived. -/
theorem FieldId.isDerived_of_type {f : FieldId} (h : f.type? = some .f64) :
    f.isDerived = true := by
  have hall : ∀ e ∈ catalog, e.type = .f64 → e.field.isDerived = true := by decide
  obtain ⟨e, he, htype⟩ := Option.map_eq_some_iff.mp h
  rw [← FieldId.field_of_info? he]
  exact hall e (List.mem_of_find?_eq_some he) htype

/-- A column that is not derived is merged free of order unless it keeps the first value. -/
theorem Column.FromCatalog.free {c : Column} (h : c.FromCatalog)
    (hderived : c.field.isDerived = false) (hkeep : c.merge ≠ .keep) : c.merge.Free c.type := by
  have htype : c.type ≠ .f64 := by
    intro heq
    have hfield := FieldId.isDerived_of_type (heq ▸ h.type_eq)
    exact Bool.false_ne_true (hderived.symm.trans hfield)
  rw [h.merge_eq] at hkeep ⊢
  exact Merge.free_resolve htype hkeep

/-- A value column that is not derived is merged free of order. -/
theorem Layout.AnyOrder.free {l : Layout} (h : l.AnyOrder) (hl : l.Valid) {c : Column}
    (hc : c ∈ l.value) (hderived : c.field.isDerived = false) : c.merge.Free c.type :=
  (hl.fromCatalog c (List.mem_append_right _ hc)).free hderived
    ((h.value c hc).resolve_left (by simp [hderived]))

/-- A value that fits its column has the type of the column. -/
theorem type_of_takes {columns : List Column} {values : List (Option Value)}
    (h : List.Forall₂ Column.Takes columns values) {i : Nat} {c : Column}
    (hc : columns[i]? = some c) {v : Value} (hv : values[i]?.join = some v) : v.type = c.type := by
  obtain ⟨hi, rfl⟩ := List.getElem?_eq_some_iff.mp hc
  have hi' : i < values.length := h.length_eq ▸ hi
  rw [List.getElem?_eq_getElem hi', Option.join_some] at hv
  exact h.get hi hi' v hv

/-- A point in time that goes past the end of a second inside a minute is the key value of all
shares of its group: none of them has the point in the next second, which is written alike. -/
def Share.LeapsShared (shares : List Share) : Prop :=
  ∀ s ∈ shares, ∀ s' ∈ shares, s.key = s'.key → ∀ (i : Nat) (t u : Instant),
    s.keys[i]? = some (.timestamp t) → s'.keys[i]? = some (.timestamp u) → ¬t.IsSettled → t = u

/-- Where leaps are shared, shares with one key and without floating-point numbers have the same
key values. -/
theorem Share.LeapsShared.keys_eq {shares : List Share} (h : LeapsShared shares) {s s' : Share}
    (hs : s ∈ shares) (hs' : s' ∈ shares) (hfloats : ∀ v ∈ s.keys, v.type ≠ .f64)
    (hkey : s.key = s'.key) : s.keys = s'.keys := by
  refine Value.eq_of_keyText hfloats (fun i t u ht hu hsame => ?_) hkey
  by_cases hsettled : t.IsSettled
  · by_cases hsettled' : u.IsSettled
    · rwa [Instant.settled_eq_self_iff.mpr hsettled, Instant.settled_eq_self_iff.mpr hsettled'] at hsame
    · exact (h s' hs' s hs hkey.symm i u t hu ht hsettled').symm
  · exact h s hs s' hs' hkey i t u ht hu hsettled

/-- The merged value of a column free of order is that of the shares in any order. -/
theorem Column.total_perm {c : Column} {i : Nat} {shares shares' : List Share}
    (hfree : c.merge.Free c.type)
    (htypes : ∀ s ∈ shares, ∀ v, s.values[i]?.join = some v → v.type = c.type)
    (h : shares.Perm shares') : c.total i shares = c.total i shares' :=
  h.foldl_eq' (fun s hs s' hs' z => hfree.apply_right_comm z (htypes s hs) (htypes s' hs')) none

/-- The shares with a key are the same in any order. -/
theorem Share.withKey_perm {shares shares' : List Share} (h : shares.Perm shares') (key : String) :
    (withKey key shares).Perm (withKey key shares') := h.filter _

section

variable {l : Layout} {shares shares' : List Share}

/-- Groups that sum up the same shares in any order have the same value in a column that is merged
free of order. -/
theorem Tally.SumOf.values_perm {key : String} {t u : Tally}
    (hfits : ∀ s ∈ shares, Tally.Fits l ⟨s.keys, s.values⟩) (h : shares.Perm shares')
    (ht : t.SumOf l.value (Share.withKey key shares))
    (hu : u.SumOf l.value (Share.withKey key shares')) {i : Nat} {c : Column}
    (hc : l.value[i]? = some c) (hderived : c.field.isDerived = false)
    (hfree : c.merge.Free c.type) : t.values[i]? = u.values[i]? := by
  rw [ht.values_eq i c hc hderived, hu.values_eq i c hc hderived,
    Column.total_perm hfree ?_ (Share.withKey_perm h key)]
  intro r hr v hv
  exact type_of_takes (hfits r (List.mem_filter.mp hr).1).values hc hv

end

namespace Aggregator

/-- Two aggregations without groups were configured alike. -/
structure StartsLike (a b : Aggregator) : Prop where
  /-- They have one layout. -/
  layout_eq : a.layout = b.layout
  /-- They count pairs alike. -/
  pairOnce_eq : a.pairOnce = b.pairOnce
  /-- They order addresses alike. -/
  ordering_eq : a.ordering = b.ordering
  /-- They have the same shards. -/
  table_eq : a.table = b.table
  /-- There are no groups. -/
  isEmpty : a.table.isEmpty = true
  /-- They counted alike. -/
  counters_eq : a.counters.ofWrites = b.counters.ofWrites

variable {a b a' b' : Aggregator}

/-- Records that bring the same shares in any order are counted alike. -/
theorem Counted.ofWrites_eq {first second : List (List Share)} (ha : a.Counted a' first)
    (hb : b.Counted b' second) (h : first.Perm second) (hstart : a.StartsLike b)
    (hsize : a'.table.size = b'.table.size) : a'.counters.ofWrites = b'.counters.ofWrites :=
  ha.ofWrites_eq_of_perm hb h hstart.layout_eq hstart.counters_eq (by rw [hstart.table_eq]) hsize

/-- The values of a share of a written record fit the columns. -/
theorem fits_of_mem_flatMap {l : Layout} {once : Bool} (hl : l.Valid) {rs : List Record} {s : Share}
    (hs : s ∈ rs.flatMap (l.shares once)) : Tally.Fits l ⟨s.keys, s.values⟩ := by
  obtain ⟨r, -, hr⟩ := List.mem_flatMap.mp hs
  exact Layout.fits_of_mem_shares hl hr

/-- Writing records to a state without groups sums up their shares. -/
theorem sumsUp_writeAll (hvalid : a.layout.Valid) (hempty : a.table.isEmpty = true)
    (rs : List Record) : (a.writeAll rs).table.SumsUp a.layout.value
      (rs.flatMap (a.layout.shares a.pairOnce)) := by
  rw [table_writeAll]
  refine (TallyTable.SumsUp.of_empty (TallyTable.shards_of_isEmpty hempty)).addShares fun s hs => ?_
  exact (fits_of_mem_flatMap hvalid hs).values.length_eq.symm

end Aggregator

end FlowTally
