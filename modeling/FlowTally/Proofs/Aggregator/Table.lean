import FlowTally.Aggregator.Table
import Mathlib.Data.String.Basic

/-!
# Groups in their shards

A table is placed when each group stands in the shard of its key and the keys of a
shard ascend. Every operation of the table keeps this, and a placed table is known by
what it finds: its entries are exactly the groups that are found under their keys.
-/

namespace FlowTally.TallyTable

/-- Each group stands in the shard of its key, and the keys of a shard ascend. -/
structure Placed (t : TallyTable) : Prop where
  /-- The keys of a shard ascend. -/
  ascending : ∀ shard ∈ t.shards, Assoc.Ascending shard
  /-- Each key is in its shard. -/
  home : ∀ i shard, t.shards[i]? = some shard → ∀ e ∈ shard, t.shardIndex e.1 = i

/-- The shard of a key exists. -/
theorem shardIndex_lt (t : TallyTable) (key : String) : t.shardIndex key < t.shards.length :=
  Nat.mod_lt _ (List.length_pos_iff.mpr t.shards_ne_nil)

/-- The keys of a shard stay ascending when a group is stored. -/
theorem ascending_insert (key : String) (tally : Tally) {shard : Shard}
    (h : Assoc.Ascending shard) : Assoc.Ascending (Assoc.insert key tally shard) :=
  h.insert String.lt_trans (fun hnot hne => lt_of_le_of_ne (not_lt.mp hnot) hne) key tally

/-- A stored group is found in its shard. -/
theorem mem_shard_iff {key : String} {tally : Tally} {shard : Shard}
    (h : Assoc.Ascending shard) : (key, tally) ∈ shard ↔ Assoc.lookup key shard = some tally :=
  h.mem_iff String.lt_irrefl

/-- A placed table holds what it finds. -/
theorem Placed.mem_entries_iff {t : TallyTable} (h : t.Placed) {key : String} {tally : Tally} :
    (key, tally) ∈ t.entries ↔ t.find? key = some tally := by
  have hlt := t.shardIndex_lt key
  have hfind : t.find? key = Assoc.lookup key t.shards[t.shardIndex key] := by
    rw [find?, List.getElem?_eq_getElem hlt, Option.bind_some]
  rw [hfind, ← mem_shard_iff (h.ascending _ (List.getElem_mem hlt)), entries, List.mem_flatten]
  constructor
  · rintro ⟨shard, hshard, hmem⟩
    obtain ⟨i, hi, rfl⟩ := List.getElem_of_mem hshard
    have hindex := h.home i _ (List.getElem?_eq_getElem hi) _ hmem
    simpa only [hindex] using hmem
  · exact fun hmem => ⟨_, List.getElem_mem hlt, hmem⟩

/-- The keys of a shard are distinct. -/
theorem nodup_of_ascending {shard : Shard} (h : Assoc.Ascending shard) :
    (shard.map (·.1)).Nodup :=
  h.nodup String.lt_irrefl

/-- No key stands twice in a placed table. -/
theorem Placed.nodup_keys {t : TallyTable} (h : t.Placed) : (t.entries.map (·.1)).Nodup := by
  rw [entries, List.map_flatten, List.Nodup, List.pairwise_flatten]
  constructor
  · intro keys hkeys
    obtain ⟨shard, hshard, rfl⟩ := List.mem_map.mp hkeys
    exact nodup_of_ascending (h.ascending shard hshard)
  · rw [List.pairwise_map, List.pairwise_iff_getElem]
    intro i j hi hj hij x hx y hy heq
    obtain ⟨d, hd, rfl⟩ := List.mem_map.mp hx
    obtain ⟨e, he, rfl⟩ := List.mem_map.mp hy
    have hindexi := h.home i _ (List.getElem?_eq_getElem hi) d hd
    have hindexj := h.home j _ (List.getElem?_eq_getElem hj) e he
    rw [← heq, hindexi] at hindexj
    omega

/-- Storing a group under its key. -/
def store (t : TallyTable) (key : String) (tally : Tally) : TallyTable :=
  t.modifyShard key (Assoc.insert key tally)

/-- Storing a group moves no key to another shard. -/
@[simp] theorem shardIndex_store (t : TallyTable) (key other : String) (tally : Tally) :
    (t.store key tally).shardIndex other = t.shardIndex other := by
  simp [store, modifyShard, shardIndex]

/-- A stored group is found, and every other key finds what it found before. -/
theorem find?_store (t : TallyTable) (key other : String) (tally : Tally) :
    (t.store key tally).find? other = if other = key then some tally else t.find? other := by
  have hlt := t.shardIndex_lt other
  rw [find?, shardIndex_store, find?, List.getElem?_eq_getElem hlt, Option.bind_some]
  have hshards : (t.store key tally).shards[t.shardIndex other]? =
      some (if t.shardIndex key = t.shardIndex other
        then Assoc.insert key tally t.shards[t.shardIndex other]
        else t.shards[t.shardIndex other]) := by
    rw [store, modifyShard, List.getElem?_modify, List.getElem?_eq_getElem hlt]
    split <;> rfl
  rw [hshards, Option.bind_some]
  split
  · exact Assoc.lookup_insert key other tally _
  · next hindex => rw [if_neg fun he => hindex (congrArg t.shardIndex he.symm)]

/-- Storing a group keeps the table placed. -/
theorem Placed.store {t : TallyTable} (h : t.Placed) (key : String) (tally : Tally) :
    (t.store key tally).Placed := by
  have hshards : ∀ i shard, (t.store key tally).shards[i]? = some shard →
      ∃ old, t.shards[i]? = some old ∧
        (shard = old ∨ t.shardIndex key = i ∧ shard = Assoc.insert key tally old) := by
    intro i shard hi
    rw [TallyTable.store, modifyShard, List.getElem?_modify] at hi
    obtain ⟨old, hold, rfl⟩ := Option.map_eq_some_iff.mp hi
    refine ⟨old, hold, ?_⟩
    by_cases hindex : t.shardIndex key = i
    · exact .inr ⟨hindex, by simp [hindex]⟩
    · exact .inl (by simp [hindex])
  constructor
  · intro shard hshard
    obtain ⟨i, hi, rfl⟩ := List.getElem_of_mem hshard
    obtain ⟨old, hold, hcases⟩ := hshards i _ (List.getElem?_eq_getElem hi)
    have hascending := h.ascending old (List.mem_of_getElem? hold)
    rcases hcases with hsame | ⟨-, hsame⟩
    · exact hsame ▸ hascending
    · exact hsame ▸ ascending_insert key tally hascending
  · intro i shard hi e he
    rw [shardIndex_store]
    obtain ⟨old, hold, rfl | ⟨hindex, rfl⟩⟩ := hshards i shard hi
    · exact h.home i shard hold e he
    · rcases Assoc.mem_keys_insert key tally old e he with rfl | he
      · exact hindex
      · exact h.home i old hold e he

/-- Changing every group changes what is found. -/
theorem find?_mapTallies (t : TallyTable) (f : Tally → Tally) (key : String) :
    (t.mapTallies f).find? key = (t.find? key).map f := by
  have hindex : (t.mapTallies f).shardIndex key = t.shardIndex key := by
    simp [mapTallies, shardIndex]
  rw [find?, hindex, find?, mapTallies, List.getElem?_map]
  cases t.shards[t.shardIndex key]? with
  | none => rfl
  | some shard => exact Assoc.lookup_map f key shard

/-- Changing every group keeps the table placed. -/
theorem Placed.mapTallies {t : TallyTable} (h : t.Placed) (f : Tally → Tally) :
    (t.mapTallies f).Placed := by
  constructor
  · intro shard hshard
    obtain ⟨old, hold, rfl⟩ := List.mem_map.mp hshard
    exact (h.ascending old hold).map f
  · intro i shard hi e he
    rw [TallyTable.mapTallies, List.getElem?_map] at hi
    obtain ⟨old, hold, rfl⟩ := Option.map_eq_some_iff.mp hi
    obtain ⟨d, hd, rfl⟩ := List.mem_map.mp he
    rw [← h.home i old hold d hd]
    simp [TallyTable.mapTallies, shardIndex]

/-- What stands in a shard of a placed table under a key. -/
theorem Placed.lookup_shard {t : TallyTable} (h : t.Placed) {i : Nat} (hi : i < t.shards.length)
    (key : String) :
    Assoc.lookup key t.shards[i] = if t.shardIndex key = i then t.find? key else none := by
  split
  · next hindex =>
    subst hindex
    rw [find?, List.getElem?_eq_getElem hi, Option.bind_some]
  · next hindex =>
    cases hlookup : Assoc.lookup key t.shards[i] with
    | none => rfl
    | some tally =>
      have hmem := Assoc.mem_of_lookup hlookup
      exact absurd (h.home i _ (List.getElem?_eq_getElem hi) _ hmem) hindex

/-- A table is its shards and how keys are spread over them. -/
theorem eq_of_shards {t u : TallyTable} (hspread : t.spread = u.spread)
    (hshards : t.shards = u.shards) : t = u := by
  cases t
  cases u
  subst hspread hshards
  rfl

/-- Clearing a table drops what its groups were changed to. -/
theorem clear_mapTallies (t : TallyTable) (f : Tally → Tally) : (t.mapTallies f).clear = t.clear :=
  eq_of_shards rfl (by simp only [clear, mapTallies, List.map_map, Function.comp_def])

/-- Clearing a table drops a group that was stored. -/
theorem clear_store (t : TallyTable) (key : String) (tally : Tally) :
    (t.store key tally).clear = t.clear := by
  refine eq_of_shards rfl ?_
  simp only [clear, store, modifyShard, List.map_const', List.length_modify]

/-- Clearing twice is clearing once. -/
theorem clear_clear (t : TallyTable) : t.clear.clear = t.clear :=
  eq_of_shards rfl (by simp only [clear, List.map_map, Function.comp_def])

/-- There is nothing to clear in a new table. -/
theorem clear_new (n : Nat) (spread : String → Nat) : (new n spread).clear = new n spread :=
  eq_of_shards rfl (by simp only [clear, new, List.map_replicate])

/-- Clearing a table leaves its shards. -/
theorem shardCount_clear (t : TallyTable) : t.clear.shardCount = t.shardCount := by
  simp only [shardCount, clear, List.length_map]

/-- Placed tables with as many shards and the same groups are equal. -/
theorem Placed.ext {t u : TallyTable} (ht : t.Placed) (hu : u.Placed)
    (hspread : t.spread = u.spread) (hcount : t.shardCount = u.shardCount)
    (h : ∀ key, t.find? key = u.find? key) : t = u := by
  have hshards : t.shards = u.shards := by
    refine List.ext_getElem hcount fun i hi hi' => ?_
    refine Assoc.Ascending.ext String.lt_irrefl String.lt_trans
      (ht.ascending _ (List.getElem_mem hi)) (hu.ascending _ (List.getElem_mem hi')) fun key => ?_
    have hindex : t.shardIndex key = u.shardIndex key := by
      simp only [shardCount] at hcount
      rw [shardIndex, shardIndex, hspread, hcount]
    rw [ht.lookup_shard hi, hu.lookup_shard hi', hindex, h]
  exact eq_of_shards hspread hshards

/-- The keys of a placed table are those under which a group is found. -/
theorem Placed.mem_keys_iff {t : TallyTable} (h : t.Placed) {key : String} :
    key ∈ t.entries.map (·.1) ↔ (t.find? key).isSome = true := by
  rw [List.mem_map, Option.isSome_iff_exists]
  constructor
  · rintro ⟨e, he, rfl⟩
    exact ⟨e.2, h.mem_entries_iff.mp he⟩
  · rintro ⟨tally, htally⟩
    exact ⟨(key, tally), h.mem_entries_iff.mpr htally, rfl⟩

/-- Storing a group makes the table larger exactly if its key is new. -/
theorem Placed.size_store {t : TallyTable} (h : t.Placed) (key : String) (tally : Tally) :
    (t.store key tally).size = if (t.find? key).isSome then t.size else t.size + 1 := by
  have hsize : ∀ u : TallyTable, u.size = (u.entries.map (·.1)).length := by
    intro u
    rw [size, List.length_map]
  have hkeys : ∀ other, other ∈ (t.store key tally).entries.map (·.1) ↔
      other = key ∨ other ∈ t.entries.map (·.1) := by
    intro other
    rw [(h.store key tally).mem_keys_iff, h.mem_keys_iff, find?_store]
    by_cases hother : other = key <;> simp [hother]
  have hnodup := (h.store key tally).nodup_keys
  rw [hsize, hsize]
  split
  · next hfound =>
    have hperm := (List.perm_ext_iff_of_nodup hnodup h.nodup_keys).mpr fun other => by
      rw [hkeys, or_iff_right_of_imp]
      rintro rfl
      exact h.mem_keys_iff.mpr hfound
    exact hperm.length_eq
  · next hnew =>
    have hcons : (key :: t.entries.map (·.1)).Nodup :=
      List.nodup_cons.mpr ⟨fun hmem => hnew (h.mem_keys_iff.mp hmem), h.nodup_keys⟩
    have hperm := (List.perm_ext_iff_of_nodup hnodup hcons).mpr fun other => by
      rw [hkeys, List.mem_cons]
    rw [hperm.length_eq, List.length_cons]

/-- Changing every group leaves the keys. -/
theorem entries_mapTallies (t : TallyTable) (f : Tally → Tally) :
    (t.mapTallies f).entries = t.entries.map fun e => (e.1, f e.2) := by
  rw [entries, entries, mapTallies, List.map_flatten]

/-- Changing every group leaves their number. -/
@[simp] theorem size_mapTallies (t : TallyTable) (f : Tally → Tally) :
    (t.mapTallies f).size = t.size := by
  rw [size, size, entries_mapTallies, List.length_map]

/-- A table has no groups if their number is zero. -/
theorem isEmpty_eq (t : TallyTable) : t.isEmpty = decide (t.size = 0) := by
  rw [Bool.eq_iff_iff, isEmpty, List.all_eq_true, decide_eq_true_eq, size, List.length_eq_zero_iff,
    entries, List.flatten_eq_nil_iff]
  simp only [List.isEmpty_iff]

/-- A table whose shards are empty finds nothing. -/
theorem find?_of_empty {t : TallyTable} (h : ∀ shard ∈ t.shards, shard = []) (key : String) :
    t.find? key = none := by
  have hlt := t.shardIndex_lt key
  rw [find?, List.getElem?_eq_getElem hlt, Option.bind_some, h _ (List.getElem_mem hlt)]
  rfl

/-- A table whose shards are empty is placed. -/
theorem Placed.of_empty {t : TallyTable} (h : ∀ shard ∈ t.shards, shard = []) : t.Placed := by
  constructor
  · intro shard hshard
    rw [h shard hshard]
    exact List.Pairwise.nil
  · intro i shard hi e he
    rw [h shard (List.mem_of_getElem? hi)] at he
    exact absurd he List.not_mem_nil

/-- A new table has empty shards. -/
theorem shards_new {n : Nat} {spread : String → Nat} :
    ∀ shard ∈ (new n spread).shards, shard = [] :=
  fun _ hshard => List.eq_of_mem_replicate hshard

/-- A cleared table has empty shards. -/
theorem shards_clear {t : TallyTable} : ∀ shard ∈ t.clear.shards, shard = [] := by
  intro shard hshard
  obtain ⟨_, _, rfl⟩ := List.mem_map.mp hshard
  rfl

/-- A table without groups has empty shards. -/
theorem shards_of_isEmpty {t : TallyTable} (h : t.isEmpty = true) :
    ∀ shard ∈ t.shards, shard = [] := by
  intro shard hshard
  simpa using List.all_eq_true.mp h shard hshard

end FlowTally.TallyTable
