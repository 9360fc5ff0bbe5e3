import FlowTally.Proofs.Aggregator.Sharding
import FlowTally.Proofs.Text.ByteOrder

/-!
# The keys of a table have one order

Rebuilding computes the derived values of a table and then lists its keys. Each key stands in front
of those behind it: its group has the preceding value in the sort column, in the direction of that
column, or an equal value and the lesser key, byte by byte. Of the lists of these keys only one is
ordered so, whatever was done to the table and in whatever shards its groups stand.
-/

namespace FlowTally

namespace TallyTable

/-- What can be done to a table of groups. -/
inductive TableChange where
  /-- Values are added to the group of a key. -/
  | add (columns : List Column) (key : String) (keys : List Value) (values : List (Option Value))
  /-- The derived values are computed and the keys listed. -/
  | rebuild (l : Layout) (ordering : AddressOrdering)
  /-- All groups are dropped. -/
  | clear

/-- The table after a change. -/
def change (t : TallyTable) : TableChange → TallyTable
  | .add columns key keys values => (t.add columns key keys values).1
  | .rebuild l ordering => (t.rebuild l ordering).1
  | .clear => t.clear

/-- The table after changes, one after the other. -/
def changeAll (t : TallyTable) (changes : List TableChange) : TallyTable :=
  changes.foldl change t

/-- One key stands in front of another: under both there is a group, and the value of the first
precedes that of the second in the sort column, in its direction, or the values compare equal and
the bytes of the first key are less. Without a sort column the bytes decide. -/
def StandsBefore (t : TallyTable) (l : Layout) (ordering : AddressOrdering) (key key' : String) :
    Prop :=
  ∃ a b, t.find? key = some a ∧ t.find? key' = some b ∧
    match l.sortColumn with
    | none => key.toUTF8.toList < key'.toUTF8.toList
    | some c =>
      let place := (c.part, c.position)
      let byValue := Value.compareOption ordering (a.at? place) (b.at? place)
      (byValue = if c.order = .desc then .gt else .lt) ∨
        byValue = .eq ∧ key.toUTF8.toList < key'.toUTF8.toList

section

variable {t u : TallyTable} {l : Layout} {ordering : AddressOrdering}

/-- A change keeps the groups of two tables the same. -/
theorem SameGroups.change (h : SameGroups t u) (c : TableChange) :
    SameGroups (t.change c) (u.change c) := by
  cases c with
  | add columns key keys values => exact (h.add columns key keys values).1
  | rebuild l ordering => exact h.mapTallies (Derived.fill l)
  | clear => exact .of_empty shards_clear shards_clear

/-- Changes keep the groups of two tables the same. -/
theorem SameGroups.changeAll (h : SameGroups t u) (changes : List TableChange) :
    SameGroups (t.changeAll changes) (u.changeAll changes) := by
  induction changes generalizing t u with
  | nil => exact h
  | cons c rest ih => exact ih (h.change c)

/-- One key stands in front of another exactly if its group compares less. -/
theorem standsBefore_iff {key key' : String} :
    t.StandsBefore l ordering key key' ↔ ∃ a b, t.find? key = some a ∧ t.find? key' = some b ∧
      l.compareGroups ordering (key, a) (key', b) = .lt := by
  have hcompare : ∀ a b : Tally, l.compareGroups ordering (key, a) (key', b) = .lt ↔
      match l.sortColumn with
      | none => key.toUTF8.toList < key'.toUTF8.toList
      | some c =>
        let place := (c.part, c.position)
        let byValue := Value.compareOption ordering (a.at? place) (b.at? place)
        (byValue = if c.order = .desc then .gt else .lt) ∨
          byValue = .eq ∧ key.toUTF8.toList < key'.toUTF8.toList := by
    intro a b
    rw [Layout.compareGroups, compareLex, Ordering.then_eq_lt, compareOn, compare_lt_iff_lt,
      Text.lt_iff_bytes_lt]
    unfold Layout.compareValues Layout.sortValue
    cases l.sortColumn with
    | none => simp
    | some c =>
      by_cases hdesc : c.order = .desc
      · have hswap : Value.compareOption ordering (b.at? (c.part, c.position))
            (a.at? (c.part, c.position)) = (Value.compareOption ordering
              (a.at? (c.part, c.position)) (b.at? (c.part, c.position))).swap :=
          Std.OrientedCmp.eq_swap
        simp only [Option.bind_some, hdesc, if_true, hswap, Ordering.swap_eq_lt,
          Ordering.swap_eq_eq]
      · simp only [Option.bind_some, hdesc, if_false]
  exact exists_congr fun a => exists_congr fun b =>
    and_congr_right fun _ => and_congr_right fun _ => (hcompare a b).symm

/-- Of two keys only one stands in front of the other. -/
theorem StandsBefore.asymm {key key' : String} (h : t.StandsBefore l ordering key key') :
    ¬ t.StandsBefore l ordering key' key := by
  intro hback
  obtain ⟨a, b, ha, hb, hlt⟩ := standsBefore_iff.mp h
  obtain ⟨b', a', hb', ha', hlt'⟩ := standsBefore_iff.mp hback
  obtain rfl := Option.some.inj (ha.symm.trans ha')
  obtain rfl := Option.some.inj (hb.symm.trans hb')
  have hswap : l.compareGroups ordering (key', b) (key, a) =
      (l.compareGroups ordering (key, a) (key', b)).swap := Std.OrientedCmp.eq_swap
  rw [hswap, hlt] at hlt'
  cases hlt'

/-- Keys each of which stands in front of those behind it are distinct. -/
theorem nodup_of_standsBefore {keys : List String}
    (h : keys.Pairwise (t.StandsBefore l ordering)) : keys.Nodup := by
  refine h.imp ?_
  rintro key _ hbefore rfl
  exact hbefore.asymm hbefore

/-- Two lists of the same keys in which each key stands in front of those behind it are equal. -/
theorem eq_of_standsBefore {keys keys' : List String} (hmem : ∀ key, key ∈ keys ↔ key ∈ keys')
    (h : keys.Pairwise (t.StandsBefore l ordering))
    (h' : keys'.Pairwise (t.StandsBefore l ordering)) : keys = keys' := by
  have hperm : keys.Perm keys' :=
    (List.perm_ext_iff_of_nodup (nodup_of_standsBefore h) (nodup_of_standsBefore h')).mpr hmem
  exact hperm.eq_of_pairwise (fun _ _ _ _ hab hba => absurd hba hab.asymm) h h'

/-- In the list of a rebuilt table each key stands in front of those behind it. -/
theorem Placed.pairwise_standsBefore (h : t.Placed) :
    (t.rebuild l ordering).2.Pairwise ((t.rebuild l ordering).1.StandsBefore l ordering) := by
  rw [rebuild_eq]
  dsimp only
  rw [List.pairwise_map]
  have hdistinct : (t.ordered l ordering).Pairwise fun a b => a.1 ≠ b.1 :=
    List.pairwise_map.mp h.nodup_ordered
  refine (pairwise_ordered.and hdistinct).imp_of_mem ?_
  rintro ⟨key, a⟩ ⟨key', b⟩ ha hb ⟨horder, hne⟩
  have hfind : ∀ {other : String} {tally : Tally}, (other, tally) ∈ t.ordered l ordering →
      (t.mapTallies (Derived.fill l)).find? other = some tally := by
    intro other tally hmem
    rw [find?_mapTallies]
    exact h.mem_ordered_iff.mp hmem
  refine standsBefore_iff.mpr ⟨a, b, hfind ha, hfind hb, ?_⟩
  rw [Layout.inOrder_eq] at horder
  cases hcompare : l.compareGroups ordering (key, a) (key', b) with
  | lt => rfl
  | eq => exact absurd (l.key_eq_of_compareGroups ordering hcompare) hne
  | gt =>
    rw [hcompare] at horder
    cases horder

/-- The list of a rebuilt table holds the keys of its groups. -/
theorem perm_rebuild (t : TallyTable) (l : Layout) (ordering : AddressOrdering) :
    (t.rebuild l ordering).2.Perm (t.entries.map (·.1)) := by
  refine (ordered_perm.map (·.1)).trans (.of_eq ?_)
  rw [entries_mapTallies, List.map_map]
  rfl

/-- The keys of a table have one order. However a table was filled, rebuilding it under any layout
and order of addresses computes the derived values of each group and lists each key once, and each
key stands in front of those behind it by the values computed, without a sort column by its bytes
alone. No other list of these keys is in order; so the list is the same in whatever order the
groups are visited, however they are sorted, whatever the number of shards and whatever spreads
the keys over them. -/
theorem rebuild_lists_in_order (n : Nat) (spread : String → Nat) (changes : List TableChange)
    (l : Layout) (ordering : AddressOrdering) :
    let t := (new n spread).changeAll changes
    let filled := (t.rebuild l ordering).1
    let keys := (t.rebuild l ordering).2
    (∀ key, filled.find? key = (t.find? key).map (Derived.fill l)) ∧
      keys.Perm (t.entries.map (·.1)) ∧ keys.Nodup ∧
      (∀ key, key ∈ keys ↔ (t.find? key).isSome = true) ∧
      keys.Pairwise (filled.StandsBefore l ordering) ∧
      (l.sortColumn = none →
        keys.Pairwise fun key key' => key.toUTF8.toList < key'.toUTF8.toList) ∧
      (∀ other : List String, (∀ key, key ∈ other ↔ key ∈ keys) →
        other.Pairwise (filled.StandsBefore l ordering) → other = keys) ∧
      (∀ other, t.Lists l ordering other ↔ other = keys) ∧
      ∀ m spread', (((new m spread').changeAll changes).rebuild l ordering).2 = keys := by
  intro t filled keys
  have hsame : ∀ m spread', SameGroups t ((new m spread').changeAll changes) := fun m spread' =>
    (SameGroups.of_empty shards_new shards_new).changeAll changes
  have hplaced : t.Placed := (hsame n spread).left
  have hbefore : keys.Pairwise (filled.StandsBefore l ordering) := hplaced.pairwise_standsBefore
  refine ⟨fun key => find?_mapTallies t _ key, perm_rebuild t l ordering,
    nodup_of_standsBefore hbefore, fun key => ?_, hbefore, fun hnone => hbefore.imp ?_,
    fun other hmem hother => eq_of_standsBefore hmem hother hbefore, fun _ => hplaced.lists_iff,
    fun m spread' => ?_⟩
  · rw [(perm_rebuild t l ordering).mem_iff, hplaced.mem_keys_iff]
  · rintro key key' ⟨a, b, -, -, hdecides⟩
    rwa [hnone] at hdecides
  · rw [rebuild_eq, ← (hsame m spread').ordered_eq]
    rfl

end

end TallyTable

end FlowTally
