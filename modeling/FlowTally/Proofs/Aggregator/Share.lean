import FlowTally.Aggregator.Basic
import FlowTally.Proofs.Aggregator.Table

/-!
# What a record brings to the groups

A record that can be read brings one share, or one for each of its two sides; a share
is added to the one group that its key values name. What a write does to the table is
to add the shares of its record, and it succeeds exactly if there are any.
-/

namespace FlowTally

/-- One addition to one group. -/
structure Share where
  /-- The key values. -/
  keys : List Value
  /-- The values to be merged, one per value column. -/
  values : List (Option Value)
deriving DecidableEq, Repr

/-- The text that names the group of a share. -/
def Share.key (s : Share) : String := Value.keyText s.keys

section

variable {R : Type} [FlowRecord R]

/-- What a record brings under a layout. With a pair among the key columns it is the
source side and then the destination side with the same values; `once` leaves the
second out if both sides have one key. A record that cannot be read brings nothing. -/
def Layout.shares (l : Layout) (once : Bool) (r : R) : List Share :=
  if FlowRecord.isAllocated r then
    if l.isBidirectional then
      match Layout.keyValues r .source l.key, Layout.keyValues r .destination l.key,
        Layout.columnValues r l.value with
      | .ok source, .ok destination, .ok values =>
        if once = true ∧ Value.keyText destination = Value.keyText source then
          [⟨source, values⟩]
        else [⟨source, values⟩, ⟨destination, values⟩]
      | _, _, _ => []
    else
      match Layout.keyValues r .plain l.key, Layout.columnValues r l.value with
      | .ok keys, .ok values => [⟨keys, values⟩]
      | _, _ => []
  else []

/-- The shares of a contribution. -/
def Aggregator.Contribution.shares (once : Bool) (c : Aggregator.Contribution) : List Share :=
  match c.destination with
  | none => [⟨c.keys, c.values⟩]
  | some destination =>
    if once = true ∧ Value.keyText destination = Value.keyText c.keys then [⟨c.keys, c.values⟩]
    else [⟨c.keys, c.values⟩, ⟨destination, c.values⟩]

/-- There is one value per column. -/
theorem Layout.length_columnValues {r : R} {columns : List Column} {values : List (Option Value)}
    (h : Layout.columnValues r columns = .ok values) : values.length = columns.length := by
  induction columns generalizing values with
  | nil =>
    obtain rfl : [] = values := Except.ok.inj h
    rfl
  | cons c rest ih =>
    unfold Layout.columnValues at h
    split at h
    · cases h
    · split at h
      · cases h
      · next vs hvs =>
        obtain rfl := Except.ok.inj h
        rw [List.length_cons, List.length_cons, ih hvs]

/-- A share was read from a record: its key values on a side, and its merged values. -/
theorem Layout.exists_side_of_mem_shares {r : R} {l : Layout} {once : Bool}
    {s : Share} (h : s ∈ l.shares once r) :
    (∃ side, Layout.keyValues r side l.key = .ok s.keys) ∧
      Layout.columnValues r l.value = .ok s.values := by
  unfold Layout.shares at h
  split at h
  · split at h
    · split at h
      · next source destination values hsource hdestination hvalues =>
        split at h
        · obtain rfl := List.mem_singleton.mp h
          exact ⟨⟨_, hsource⟩, hvalues⟩
        · rcases List.mem_cons.mp h with rfl | h
          · exact ⟨⟨_, hsource⟩, hvalues⟩
          · obtain rfl := List.mem_singleton.mp h
            exact ⟨⟨_, hdestination⟩, hvalues⟩
      · exact absurd h List.not_mem_nil
    · split at h
      · next keys values hkeys hvalues =>
        obtain rfl := List.mem_singleton.mp h
        exact ⟨⟨_, hkeys⟩, hvalues⟩
      · exact absurd h List.not_mem_nil
  · exact absurd h List.not_mem_nil

/-- A share has one value per value column. -/
theorem Layout.length_values_of_mem_shares {l : Layout} {once : Bool} {r : R} {s : Share}
    (h : s ∈ l.shares once r) : s.values.length = l.value.length :=
  Layout.length_columnValues (Layout.exists_side_of_mem_shares h).2

/-- A contribution is never empty. -/
theorem Aggregator.Contribution.shares_ne_nil (once : Bool) (c : Aggregator.Contribution) :
    c.shares once ≠ [] := by
  unfold Aggregator.Contribution.shares
  split
  · exact List.cons_ne_nil _ _
  · split <;> exact List.cons_ne_nil _ _

/-- What a record contributes are its shares, and nothing if it cannot be read. -/
theorem Aggregator.shares_of_contribution (a : Aggregator) (r : R) :
    (∃ c, a.contribution r = .ok c ∧ a.layout.shares a.pairOnce r = c.shares a.pairOnce) ∨
      ∃ e, a.contribution r = .error e ∧ a.layout.shares a.pairOnce r = [] := by
  unfold Aggregator.contribution Layout.shares
  cases FlowRecord.isAllocated r with
  | false => exact .inr ⟨_, rfl, rfl⟩
  | true =>
    cases hside : a.layout.isBidirectional with
    | false =>
      simp only [Bool.not_true, Bool.false_eq_true, if_false, if_true, Bool.not_false]
      cases Layout.keyValues r .plain a.layout.key with
      | error e => exact .inr ⟨e, rfl, rfl⟩
      | ok keys =>
        cases Layout.columnValues r a.layout.value with
        | error e => exact .inr ⟨e, rfl, rfl⟩
        | ok values => exact .inl ⟨_, rfl, rfl⟩
    | true =>
      simp only [Bool.not_true, Bool.false_eq_true, if_false, if_true]
      cases Layout.keyValues r .source a.layout.key with
      | error e => exact .inr ⟨e, rfl, rfl⟩
      | ok source =>
        cases Layout.columnValues r a.layout.value with
        | error e =>
          cases Layout.keyValues r .destination a.layout.key <;> exact .inr ⟨e, rfl, rfl⟩
        | ok values =>
          cases Layout.keyValues r .destination a.layout.key with
          | error e => exact .inr ⟨e, rfl, rfl⟩
          | ok destination => exact .inl ⟨_, rfl, rfl⟩

end

namespace TallyTable

/-- The table with a share added. -/
def addShare (columns : List Column) (t : TallyTable) (s : Share) : TallyTable :=
  (t.add columns s.key s.keys s.values).1

/-- The group of a share after it was added. -/
def sharedTally (columns : List Column) (s : Share) : Option Tally → Tally
  | none => ⟨s.keys, s.values⟩
  | some tally => { tally with values := mergeValues columns tally.values s.values }

/-- Adding a share stores its group, new or merged. -/
theorem addShare_eq (columns : List Column) (t : TallyTable) (s : Share) :
    t.addShare columns s = t.store s.key (sharedTally columns s (t.find? s.key)) := by
  unfold addShare add
  cases t.find? s.key <;> rfl

/-- Adding a share changes its own group only. -/
theorem find?_addShare (columns : List Column) (t : TallyTable) (s : Share) (key : String) :
    (t.addShare columns s).find? key =
      if key = s.key then some (sharedTally columns s (t.find? s.key)) else t.find? key := by
  rw [addShare_eq, find?_store]

/-- Adding a share keeps the table placed. -/
theorem Placed.addShare {t : TallyTable} (h : t.Placed) (columns : List Column) (s : Share) :
    (t.addShare columns s).Placed := by
  rw [addShare_eq]
  exact h.store _ _

/-- Adding shares leaves the spread and the number of shards. -/
theorem addShares_keeps (t : TallyTable) (columns : List Column) (shares : List Share) :
    (shares.foldl (TallyTable.addShare columns) t).spread = t.spread ∧
      (shares.foldl (TallyTable.addShare columns) t).shardCount = t.shardCount := by
  induction shares generalizing t with
  | nil => exact ⟨rfl, rfl⟩
  | cons s rest ih =>
    obtain ⟨hspread, hcount⟩ := ih (t.addShare columns s)
    rw [List.foldl_cons, hspread, hcount, addShare_eq]
    exact ⟨rfl, List.length_modify _ _ _⟩

/-- Adding shares keeps the table placed. -/
theorem Placed.addShares {t : TallyTable} (h : t.Placed) (columns : List Column)
    (shares : List Share) : (shares.foldl (TallyTable.addShare columns) t).Placed := by
  induction shares generalizing t with
  | nil => exact h
  | cons s rest ih => exact ih (h.addShare columns s)

/-- Clearing a table drops the shares that were added. -/
theorem clear_addShares (t : TallyTable) (columns : List Column) (shares : List Share) :
    (shares.foldl (TallyTable.addShare columns) t).clear = t.clear := by
  induction shares generalizing t with
  | nil => rfl
  | cons s rest ih => rw [List.foldl_cons, ih, addShare_eq, clear_store]

end TallyTable

namespace Aggregator

/-- A contribution is added as one share, as one of two with the other skipped, or as two. -/
theorem addContribution_cases (a : Aggregator) (c : Contribution) :
    (c.destination = none ∧ c.shares a.pairOnce = [⟨c.keys, c.values⟩] ∧
      a.addContribution c = a.add c.keys c.values) ∨
    (∃ destination, c.destination = some destination ∧
      c.shares a.pairOnce = [⟨c.keys, c.values⟩] ∧
      a.addContribution c = { a.add c.keys c.values with
        counters := { (a.add c.keys c.values).counters with
          pairsSkipped := (a.add c.keys c.values).counters.pairsSkipped + 1 } }) ∨
    ∃ destination, c.destination = some destination ∧
      c.shares a.pairOnce = [⟨c.keys, c.values⟩, ⟨destination, c.values⟩] ∧
      a.addContribution c = (a.add c.keys c.values).add destination c.values := by
  unfold addContribution Contribution.shares
  cases c.destination with
  | none => exact .inl ⟨rfl, rfl, rfl⟩
  | some destination =>
    by_cases honce : a.pairOnce = true ∧ Value.keyText destination = Value.keyText c.keys
    · refine .inr (.inl ⟨destination, rfl, if_pos honce, ?_⟩)
      simp only [honce.1, honce.2, decide_true, Bool.and_self, if_true]
    · have hfalse : (a.pairOnce && decide (Value.keyText destination = Value.keyText c.keys)) =
          false := by
        simpa using honce
      refine .inr (.inr ⟨destination, rfl, if_neg honce, ?_⟩)
      simp only [hfalse, Bool.false_eq_true, if_false]

/-- A contribution adds its shares to the table. -/
theorem table_addContribution (a : Aggregator) (c : Contribution) :
    (a.addContribution c).table =
      (c.shares a.pairOnce).foldl (TallyTable.addShare a.layout.value) a.table := by
  rcases a.addContribution_cases c with
    ⟨-, hshares, heq⟩ | ⟨_, -, hshares, heq⟩ | ⟨_, -, hshares, heq⟩
  · rw [hshares, heq]
    rfl
  · rw [hshares, heq]
    rfl
  · rw [hshares, heq]
    rfl

/-- A contribution changes nothing but the table and the counters. -/
theorem addContribution_eq (a : Aggregator) (c : Contribution) :
    a.addContribution c = { a with
      table := (a.addContribution c).table
      counters := (a.addContribution c).counters } := by
  rcases a.addContribution_cases c with ⟨-, -, heq⟩ | ⟨_, -, -, heq⟩ | ⟨_, -, -, heq⟩
  · rw [heq]
    rfl
  · rw [heq]
    rfl
  · rw [heq]
    rfl

variable {R : Type} [FlowRecord R]

/-- What a write leaves as it was. -/
theorem write_keeps (a : Aggregator) (r : R) :
    (a.write r).1.layout = a.layout ∧ (a.write r).1.pairOnce = a.pairOnce ∧
      (a.write r).1.ordering = a.ordering ∧ (a.write r).1.kept = a.kept := by
  unfold write
  cases a.contribution r with
  | error e => exact ⟨rfl, rfl, rfl, rfl⟩
  | ok c =>
    simp only [touch]
    rw [addContribution_eq a c]
    exact ⟨rfl, rfl, rfl, rfl⟩

/-- A write adds the shares of its record to the table. -/
theorem table_write (a : Aggregator) (r : R) :
    (a.write r).1.table =
      (a.layout.shares a.pairOnce r).foldl (TallyTable.addShare a.layout.value) a.table := by
  rcases a.shares_of_contribution r with ⟨c, hc, hshares⟩ | ⟨e, he, hshares⟩
  · rw [hshares, ← table_addContribution]
    simp only [write, hc, touch]
  · simp only [write, he, hshares, List.foldl_nil]

/-- The aggregation after records were written one after the other. -/
def writeAll (a : Aggregator) (rs : List R) : Aggregator := rs.foldl (fun a r => (a.write r).1) a

/-- What writes leave as it was. -/
theorem writeAll_keeps (a : Aggregator) (rs : List R) :
    (a.writeAll rs).layout = a.layout ∧ (a.writeAll rs).pairOnce = a.pairOnce ∧
      (a.writeAll rs).ordering = a.ordering := by
  induction rs generalizing a with
  | nil => exact ⟨rfl, rfl, rfl⟩
  | cons r rest ih =>
    obtain ⟨hlayout, honce, hordering, -⟩ := a.write_keeps r
    obtain ⟨hlayout', honce', hordering'⟩ := ih (a.write r).1
    exact ⟨hlayout'.trans hlayout, honce'.trans honce, hordering'.trans hordering⟩

/-- Writes add the shares of their records to the table. -/
theorem table_writeAll (a : Aggregator) (rs : List R) :
    (a.writeAll rs).table = (rs.flatMap (a.layout.shares a.pairOnce)).foldl
      (TallyTable.addShare a.layout.value) a.table := by
  induction rs generalizing a with
  | nil => rfl
  | cons r rest ih =>
    obtain ⟨hlayout, honce, -, -⟩ := a.write_keeps r
    have hrest := ih (a.write r).1
    rw [hlayout, honce, table_write] at hrest
    rw [List.flatMap_cons, List.foldl_append]
    exact hrest

/-- A write succeeds exactly if its record brings a share. -/
theorem write_succeeds_iff (a : Aggregator) (r : R) :
    (a.write r).2 = .ok () ↔ a.layout.shares a.pairOnce r ≠ [] := by
  rcases a.shares_of_contribution r with ⟨c, hc, hshares⟩ | ⟨e, he, hshares⟩
  · simp only [write, hc, hshares, true_iff]
    exact c.shares_ne_nil a.pairOnce
  · simp [write, he, hshares]

end Aggregator

end FlowTally
