import FlowTally.Proofs.Aggregator.Answer
import FlowTally.Proofs.Aggregator.Grouping
import FlowTally.Proofs.Aggregator.Kept
import FlowTally.Proofs.Aggregator.Order

/-!
# Shards cannot be seen

A table finds a group by its key, and which shard the group stands in decides only in what
order the groups are visited. Putting them in order erases that. So aggregations whose
tables find the same groups stay so through every run and give the same answers, whatever
the number of their shards and whatever spreads the keys.
-/

namespace FlowTally

namespace TallyTable

/-- Two tables find the same groups, whatever shards they stand in. -/
structure SameGroups (t u : TallyTable) : Prop where
  /-- Each key finds the same group. -/
  find_eq : ∀ key, t.find? key = u.find? key
  /-- The groups of the one stand in their shards. -/
  left : t.Placed
  /-- The groups of the other stand in their shards. -/
  right : u.Placed

section

variable {t u : TallyTable}

/-- Tables without groups find the same. -/
theorem SameGroups.of_empty (ht : ∀ shard ∈ t.shards, shard = [])
    (hu : ∀ shard ∈ u.shards, shard = []) : SameGroups t u where
  find_eq key := by rw [find?_of_empty ht, find?_of_empty hu]
  left := .of_empty ht
  right := .of_empty hu

/-- Tables with the same groups visit them in two orders. -/
theorem SameGroups.entries_perm (h : SameGroups t u) : t.entries.Perm u.entries := by
  refine (List.perm_ext_iff_of_nodup h.left.nodup_keys.of_map h.right.nodup_keys.of_map).mpr ?_
  intro e
  rw [h.left.mem_entries_iff, h.right.mem_entries_iff, h.find_eq]

/-- Tables with the same groups have as many. -/
theorem SameGroups.size_eq (h : SameGroups t u) : t.size = u.size := h.entries_perm.length_eq

/-- Changing every group keeps the groups the same. -/
theorem SameGroups.mapTallies (h : SameGroups t u) (f : Tally → Tally) :
    SameGroups (t.mapTallies f) (u.mapTallies f) where
  find_eq key := by rw [find?_mapTallies, find?_mapTallies, h.find_eq]
  left := h.left.mapTallies f
  right := h.right.mapTallies f

/-- Storing a group keeps the groups the same. -/
theorem SameGroups.store (h : SameGroups t u) (key : String) (tally : Tally) :
    SameGroups (t.store key tally) (u.store key tally) where
  find_eq other := by rw [find?_store, find?_store, h.find_eq]
  left := h.left.store key tally
  right := h.right.store key tally

/-- Adding values makes a group in both tables or in none, and keeps the groups the same. -/
theorem SameGroups.add (h : SameGroups t u) (columns : List Column) (key : String)
    (keys : List Value) (values : List (Option Value)) :
    SameGroups (t.add columns key keys values).1 (u.add columns key keys values).1 ∧
      (t.add columns key keys values).2 = (u.add columns key keys values).2 := by
  unfold TallyTable.add
  rw [h.find_eq]
  cases u.find? key with
  | none => exact ⟨h.store key _, rfl⟩
  | some tally => exact ⟨h.store key _, rfl⟩

/-- Tables with the same groups have the same order of the results. -/
theorem SameGroups.ordered_eq (h : SameGroups t u) (l : Layout) (ordering : AddressOrdering) :
    t.ordered l ordering = u.ordered l ordering :=
  h.right.eq_ordered (ordered_perm.trans (h.mapTallies _).entries_perm) pairwise_ordered

end

end TallyTable

namespace Aggregator

/-- Two aggregations differ in the shards of their tables only. -/
def SameButShards (a b : Aggregator) : Prop :=
  ∃ u, a.table.SameGroups u ∧ b = { a with table := u }

namespace SameButShards

variable {a b : Aggregator}

/-- Asking for the order gives the same order. -/
theorem sortedKeys (h : SameButShards a b) :
    SameButShards a.sortedKeys.1 b.sortedKeys.1 ∧ a.sortedKeys.2 = b.sortedKeys.2 := by
  obtain ⟨u, hu, rfl⟩ := h
  have hfresh : SameButShards a.rebuilt.1 ({ a with table := u } : Aggregator).rebuilt.1 ∧
      a.rebuilt.2 = ({ a with table := u } : Aggregator).rebuilt.2 := by
    simp only [rebuilt, TallyTable.rebuild_eq, hu.ordered_eq, and_true]
    exact ⟨_, hu.mapTallies _, rfl⟩
  unfold Aggregator.sortedKeys
  cases hkept : a.kept with
  | none => exact hfresh
  | some kept =>
    dsimp only
    split
    · exact ⟨⟨u, hu, by rw [hkept]⟩, rfl⟩
    · exact hfresh

/-- Reading cannot tell the shards. -/
theorem readsAlike : ReadsAlike SameButShards where
  layout_eq h := by
    obtain ⟨u, -, rfl⟩ := h
    rfl
  size_eq h := by
    obtain ⟨u, hu, rfl⟩ := h
    exact hu.size_eq
  filled_eq {R} _ {a b} c out h := by
    obtain ⟨⟨v, hv, hsame⟩, hkeys⟩ := h.sortedKeys
    obtain ⟨u, hu, hb⟩ := h
    refine materialize_congr_of_find (a := a) (b := b) ?_ ?_ (fun key => ?_) hkeys c out
    · rw [hb]
    · rw [hb, TallyTable.isEmpty_eq, TallyTable.isEmpty_eq, hu.size_eq]
    · rw [hsame]
      exact hv.find_eq key
  materialize c out h := by
    have hsorted := h.sortedKeys.1
    rw [materialize_fst, materialize_fst]
    obtain ⟨u, hu, rfl⟩ := h
    rw [TallyTable.isEmpty_eq, TallyTable.isEmpty_eq, hu.size_eq]
    split
    · exact hsorted
    · exact ⟨u, hu, rfl⟩

/-- A request drops the groups on both sides or on none. -/
theorem configure (h : SameButShards a b) (r : ColumnRequest) :
    SameButShards (a.configure r).1 (b.configure r).1 := by
  obtain ⟨u, hu, rfl⟩ := h
  unfold Aggregator.configure
  cases a.layout.configure r with
  | none => exact ⟨u, hu, rfl⟩
  | some l =>
    dsimp only
    split
    · exact ⟨u, hu, rfl⟩
    · exact ⟨u.clear, .of_empty TallyTable.shards_clear TallyTable.shards_clear, rfl⟩

/-- Values are added to the same group and counted alike. -/
theorem add (h : SameButShards a b) (keys : List Value) (values : List (Option Value)) :
    SameButShards (a.add keys values) (b.add keys values) := by
  obtain ⟨u, hu, rfl⟩ := h
  obtain ⟨hsame, hadded⟩ := hu.add a.layout.value (Value.keyText keys) keys values
  unfold Aggregator.add
  dsimp only
  rw [← hadded]
  exact ⟨_, hsame, rfl⟩

/-- Both sides of a record are added to the same groups, and one is skipped on both sides or on
none. -/
theorem addContribution (h : SameButShards a b) (c : Contribution) :
    SameButShards (a.addContribution c) (b.addContribution c) := by
  have hsource := h.add c.keys c.values
  have honce : b.pairOnce = a.pairOnce := by
    obtain ⟨u, -, rfl⟩ := h
    rfl
  unfold Aggregator.addContribution
  cases c.destination with
  | none => exact hsource
  | some destination =>
    dsimp only
    rw [honce]
    split
    · obtain ⟨u, hu, heq⟩ := hsource
      rw [heq]
      exact ⟨u, hu, rfl⟩
    · exact hsource.add destination c.values

/-- A record is refused on both sides or on none. -/
theorem write (h : SameButShards a b) {R : Type} [FlowRecord R] (r : R) :
    SameButShards (a.write r).1 (b.write r).1 := by
  have hcontribution : b.contribution r = a.contribution r := by
    obtain ⟨u, -, rfl⟩ := h
    rfl
  unfold Aggregator.write
  rw [hcontribution]
  cases a.contribution r with
  | error e =>
    obtain ⟨u, hu, rfl⟩ := h
    exact ⟨u, hu, rfl⟩
  | ok c =>
    obtain ⟨u, hu, heq⟩ := h.addContribution c
    dsimp only
    rw [heq]
    exact ⟨u, hu, rfl⟩

/-- No operation tells the shards. -/
theorem indistinct : Indistinct SameButShards := by
  refine .of_readsAlike readsAlike (fun r h => h.configure r) ?_ ?_ (fun r h => h.write r) ?_
  · rintro a _ on ⟨u, hu, rfl⟩
    exact ⟨u, hu, rfl⟩
  · rintro a _ ordering ⟨u, hu, rfl⟩
    exact ⟨u, hu, rfl⟩
  · rintro a _ ⟨u, hu, rfl⟩
    exact ⟨u.clear, .of_empty TallyTable.shards_clear TallyTable.shards_clear, rfl⟩

end SameButShards

/-- No operation changes the number of shards. -/
theorem shardCount_step (a : Aggregator) (op : Operation) :
    (a.step op).table.shardCount = a.table.shardCount := by
  rw [← TallyTable.shardCount_clear, clear_table_step, TallyTable.shardCount_clear]

/-- Shards cannot be seen. Whatever the number of shards, at least one, and whatever spreads the
keys over them, a run gives the same answers and ends in the same status: at every moment each
key finds the same group, and the order of the results is the same, in whatever order the
shards are visited and however the groups are sorted. -/
theorem answers_of_shards (n m : Nat) (spread spread' : String → Nat) (ops : List Operation) :
    let a := (new n spread).run ops
    let b := (new m spread').run ops
    (new n spread).answers ops = (new m spread').answers ops ∧ a.status = b.status ∧
      (∀ key, a.table.find? key = b.table.find? key) ∧
      (∀ keys, a.table.Lists a.layout a.ordering keys ↔
        keys = (b.table.rebuild b.layout b.ordering).2) ∧
      a.table.shardCount = max n 1 ∧ b.table.shardCount = max m 1 := by
  intro a b
  have hcount : ∀ k s, ((new k s).run ops).table.shardCount = max k 1 := by
    intro k s
    refine run_induction ?_ fun c op _ hc => (shardCount_step c op).trans hc
    exact List.length_replicate
  have hnew : SameButShards (new n spread) (new m spread') :=
    ⟨.new m spread', .of_empty TallyTable.shards_new TallyTable.shards_new, rfl⟩
  have hrun : SameButShards a b := SameButShards.indistinct.run hnew ops
  refine ⟨SameButShards.indistinct.answers_eq hnew ops, ?_, ?_, fun keys => ?_, hcount n spread,
    hcount m spread'⟩
  all_goals obtain ⟨u, hu, hb⟩ := hrun
  all_goals rw [hb]
  · simp only [status, groupCount, hu.size_eq]
  · exact hu.find_eq
  · rw [hu.left.lists_iff, TallyTable.rebuild_eq, TallyTable.rebuild_eq, hu.ordered_eq]

end Aggregator

end FlowTally
