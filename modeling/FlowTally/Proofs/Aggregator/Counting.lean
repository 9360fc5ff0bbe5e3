import FlowTally.Proofs.Aggregator.Share

/-!
# What the counters count

The counters follow from how many shares each record brought. A record without a share was
refused; a record with one share where there are two sides had its second side skipped; and
every share made a group or was merged into one, where the groups that were made are those
by which the table grew.
-/

namespace FlowTally

/-- The counters without that of the rebuilds. -/
def Counters.ofWrites (c : Counters) : Counters := { c with sortRebuilds := 0 }

namespace Aggregator

/-- Records that brought some shares each lead from one aggregation to another. -/
structure Counted (a a' : Aggregator) (brought : List (List Share)) : Prop where
  /-- Each record with a share was written. -/
  written_eq : a'.counters.recordsWritten =
    a.counters.recordsWritten + brought.countP fun shares => !shares.isEmpty
  /-- Each record without one was refused. -/
  refused_eq : a'.counters.writeErrors = a.counters.writeErrors + brought.countP List.isEmpty
  /-- The groups that were made are those by which the table grew. -/
  created_eq : a'.counters.groupsCreated + a.table.size =
    a.counters.groupsCreated + a'.table.size
  /-- Each share made a group or was merged into one. -/
  added_eq : a'.counters.groupsCreated + a'.counters.groupsMerged =
    a.counters.groupsCreated + a.counters.groupsMerged + brought.flatten.length
  /-- A side was skipped where only one of two was left. -/
  skipped_eq : a'.counters.pairsSkipped = a.counters.pairsSkipped +
    if a.layout.isBidirectional then brought.countP fun shares => decide (shares.length = 1) else 0

variable {a b c : Aggregator}

/-- Without records nothing is counted. -/
theorem Counted.refl (a : Aggregator) : a.Counted a [] := by
  constructor <;> simp

/-- Records one after the other are counted together. -/
theorem Counted.trans {first second : List (List Share)} (hab : a.Counted b first)
    (hbc : b.Counted c second) (hlayout : b.layout = a.layout) :
    a.Counted c (first ++ second) := by
  have hskipped := hbc.skipped_eq
  rw [hlayout] at hskipped
  constructor
  · rw [hbc.written_eq, hab.written_eq, List.countP_append, Nat.add_assoc]
  · rw [hbc.refused_eq, hab.refused_eq, List.countP_append, Nat.add_assoc]
  · have hcreated := hab.created_eq
    have hcreated' := hbc.created_eq
    omega
  · rw [hbc.added_eq, hab.added_eq, List.flatten_append, List.length_append, Nat.add_assoc]
  · rw [hskipped, hab.skipped_eq, List.countP_append]
    split <;> omega

/-- Records that bring the same shares in any order are counted alike where the tables are
as large before and afterwards. -/
theorem Counted.ofWrites_eq_of_perm {a' b' : Aggregator} {first second : List (List Share)}
    (ha : a.Counted a' first) (hb : b.Counted b' second) (h : first.Perm second)
    (hlayout : a.layout = b.layout) (hcounters : a.counters.ofWrites = b.counters.ofWrites)
    (hbefore : a.table.size = b.table.size) (hafter : a'.table.size = b'.table.size) :
    a'.counters.ofWrites = b'.counters.ofWrites := by
  obtain ⟨hwritten, hrefused, hcreated, hmerged, hskipped, -⟩ := Counters.mk.inj hcounters
  have hcreated' : a'.counters.groupsCreated = b'.counters.groupsCreated := by
    have hmade := ha.created_eq
    have hmade' := hb.created_eq
    omega
  have hmerged' : a'.counters.groupsMerged = b'.counters.groupsMerged := by
    have hadded := ha.added_eq
    have hadded' := hb.added_eq
    rw [h.flatten.length_eq] at hadded
    omega
  have hskipped' : a'.counters.pairsSkipped = b'.counters.pairsSkipped := by
    rw [ha.skipped_eq, hb.skipped_eq, hlayout, h.countP_eq, hskipped]
  simp only [Counters.ofWrites, ha.written_eq, hb.written_eq, ha.refused_eq, hb.refused_eq,
    hcreated', hmerged', hskipped', h.countP_eq, hwritten, hrefused]

/-- One addition is counted as one, and nothing else is counted. -/
structure CountedOnce (a b : Aggregator) : Prop where
  /-- No record was written. -/
  written_eq : b.counters.recordsWritten = a.counters.recordsWritten
  /-- No record was refused. -/
  refused_eq : b.counters.writeErrors = a.counters.writeErrors
  /-- No side was skipped. -/
  skipped_eq : b.counters.pairsSkipped = a.counters.pairsSkipped
  /-- A group that was made is one by which the table grew. -/
  created_eq : b.counters.groupsCreated + a.table.size = a.counters.groupsCreated + b.table.size
  /-- A group was made or there was one to merge into. -/
  added_eq : b.counters.groupsCreated + b.counters.groupsMerged =
    a.counters.groupsCreated + a.counters.groupsMerged + 1

/-- An addition adds a share, and is counted as a group that was made or as one that was merged
into. -/
theorem add_eq (a : Aggregator) (keys : List Value) (values : List (Option Value)) :
    a.add keys values = { a with
      table := a.table.addShare a.layout.value ⟨keys, values⟩
      counters := a.counters.count
        (if (a.table.find? (Value.keyText keys)).isSome then .merged else .created) } := by
  unfold add TallyTable.addShare TallyTable.add Share.key
  cases a.table.find? (Value.keyText keys) <;> rfl

/-- Adding to a group is counted once. -/
theorem countedOnce_add (h : a.table.Placed) (keys : List Value) (values : List (Option Value)) :
    a.CountedOnce (a.add keys values) := by
  have hcounters := congrArg counters (a.add_eq keys values)
  have hsize : (a.add keys values).table.size = if (a.table.find? (Value.keyText keys)).isSome
      then a.table.size else a.table.size + 1 := by
    rw [add_eq, TallyTable.addShare_eq, h.size_store]
    rfl
  cases hfound : (a.table.find? (Value.keyText keys)).isSome with
  | true =>
    rw [hfound, if_pos rfl] at hsize hcounters
    constructor <;> rw [hcounters] <;> simp only [Counters.count]
    · rw [hsize]
    · omega
  | false =>
    rw [hfound, if_neg Bool.false_ne_true] at hsize hcounters
    constructor <;> rw [hcounters] <;> simp only [Counters.count]
    · omega
    · omega

/-- An addition keeps the table placed. -/
theorem placed_add (h : a.table.Placed) (keys : List Value) (values : List (Option Value)) :
    (a.add keys values).table.Placed :=
  h.addShare a.layout.value ⟨keys, values⟩

variable {R : Type} [FlowRecord R]

/-- A record has a destination side exactly if a pair is grouped by. -/
theorem isSome_destination {r : R} {contribution : Contribution}
    (h : a.contribution r = .ok contribution) :
    contribution.destination.isSome = a.layout.isBidirectional := by
  unfold Aggregator.contribution at h
  split at h
  · cases h
  · dsimp only at h
    split at h
    · cases h
    · split at h
      · cases h
      · split at h
        · next hplain =>
          obtain rfl := Except.ok.inj h
          simpa using hplain
        · next hpair =>
          split at h
          · cases h
          · obtain rfl := Except.ok.inj h
            simpa using hpair

/-- A write is counted by its shares. -/
theorem Counted.write (h : a.table.Placed) (r : R) :
    a.Counted (a.write r).1 [a.layout.shares a.pairOnce r] := by
  rcases a.shares_of_contribution r with ⟨contribution, hok, hshares⟩ | ⟨e, herror, hshares⟩
  · rw [hshares]
    simp only [Aggregator.write, hok, touch]
    have hsides := isSome_destination hok
    have hsource := countedOnce_add h contribution.keys contribution.values
    rcases a.addContribution_cases contribution with
      ⟨hside, hone, heq⟩ | ⟨destination, hside, hone, heq⟩ | ⟨destination, hside, htwo, heq⟩
    · rw [hside] at hsides
      rw [hone, heq]
      constructor
      · simp [hsource.written_eq]
      · simp [hsource.refused_eq]
      · exact hsource.created_eq
      · simpa using hsource.added_eq
      · simp [← hsides, hsource.skipped_eq]
    · rw [hside] at hsides
      rw [hone, heq]
      constructor
      · simp [hsource.written_eq]
      · simp [hsource.refused_eq]
      · exact hsource.created_eq
      · simpa using hsource.added_eq
      · simp [← hsides, hsource.skipped_eq]
    · have hdestination := countedOnce_add (placed_add h contribution.keys contribution.values)
        destination contribution.values
      have hcreated := hsource.created_eq
      have hcreated' := hdestination.created_eq
      have hadded := hsource.added_eq
      have hadded' := hdestination.added_eq
      rw [htwo, heq]
      constructor
      · simp [hdestination.written_eq, hsource.written_eq]
      · simp [hdestination.refused_eq, hsource.refused_eq]
      · dsimp only
        omega
      · simp only [List.flatten_cons, List.flatten_nil, List.append_nil, List.length_cons,
          List.length_nil]
        omega
      · simp [hdestination.skipped_eq, hsource.skipped_eq]
  · rw [hshares]
    simp only [Aggregator.write, herror]
    constructor <;> simp

/-- Writes are counted by their shares. -/
theorem Counted.writeAll (h : a.table.Placed) (rs : List R) :
    a.Counted (a.writeAll rs) (rs.map (a.layout.shares a.pairOnce)) := by
  induction rs generalizing a with
  | nil => exact .refl a
  | cons r rest ih =>
    obtain ⟨hlayout, honce, -, -⟩ := a.write_keeps r
    have hplaced : (a.write r).1.table.Placed := by
      rw [table_write]
      exact h.addShares _ _
    have hrest := ih hplaced
    rw [hlayout, honce] at hrest
    exact (Counted.write h r).trans hrest hlayout

end Aggregator

end FlowTally
