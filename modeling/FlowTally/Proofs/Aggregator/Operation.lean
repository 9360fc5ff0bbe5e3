import FlowTally.Aggregator.Report
import FlowTally.Proofs.Aggregator.Derived
import FlowTally.Proofs.Aggregator.Share

/-!
# Runs of an aggregation

An aggregation is driven by operations in any order. Reading the results changes it in
one way only: the derived values are filled in and the order is kept.
-/

namespace FlowTally

/-- One call on an aggregation. -/
inductive Operation : Type 1 where
  /-- Gives a field a column. -/
  | configure (r : ColumnRequest)
  /-- Says whether a record whose two sides have one key counts once. -/
  | setPairOnce (on : Bool)
  /-- Says how addresses are ordered. -/
  | setOrdering (ordering : AddressOrdering)
  /-- Writes a record of any kind. -/
  | write {R : Type} [FlowRecord R] (r : R)
  /-- Asks for the first position. -/
  | firstPosition
  /-- Asks for the position behind another. -/
  | nextPosition (c : Cursor)
  /-- Fills a record of any kind with the group at a position. -/
  | materialize {R : Type} [FlowRecord R] (c : Cursor) (out : R)
  /-- Writes the results. -/
  | report (format : OutputFormat) (limit : Nat)
  /-- Goes back to the state at the start. -/
  | clear

/-- Whether an operation that writes a record writes one of this library. -/
def Operation.OnRecords : Operation → Prop
  | @write _ _ r => ∃ s : Record, write r = write s
  | _ => True

namespace Aggregator

/-- The aggregation after an operation. -/
def step (a : Aggregator) : Operation → Aggregator
  | .configure r => (a.configure r).1
  | .setPairOnce on => a.setPairOnce on
  | .setOrdering ordering => a.setOrdering ordering
  | @Operation.write _ _ r => (a.write r).1
  | .firstPosition => a
  | .nextPosition _ => a
  | @Operation.materialize _ _ c out => (a.materialize c out).1
  | .report format limit => (a.report format limit).1
  | .clear => a.clear

/-- The aggregation after operations one after the other. -/
def run (a : Aggregator) (ops : List Operation) : Aggregator := ops.foldl step a

/-- What each of some operations keeps is kept by all of them. -/
theorem run_induction {P : Aggregator → Prop} {a : Aggregator} {ops : List Operation} (h : P a)
    (step : ∀ a, ∀ op ∈ ops, P a → P (a.step op)) : P (a.run ops) := by
  induction ops generalizing a with
  | nil => exact h
  | cons op rest ih =>
    refine ih (step a op List.mem_cons_self h) fun b o ho => ?_
    exact step b o (List.mem_cons_of_mem op ho)

/-- The states that operations lead to. -/
def Reachable (a : Aggregator) : Prop := ∃ shards spread ops, (new shards spread).run ops = a

/-- The states that operations lead to when the written records are of this library. -/
def RecordReachable (a : Aggregator) : Prop :=
  ∃ shards spread ops, (∀ op ∈ ops, Operation.OnRecords op) ∧ (new shards spread).run ops = a

/-- What records of this library lead to is reachable. -/
theorem RecordReachable.reachable {a : Aggregator} (h : a.RecordReachable) : a.Reachable := by
  obtain ⟨n, spread, ops, -, rfl⟩ := h
  exact ⟨n, spread, ops, rfl⟩

/-- An operation leads from a reachable state to another. -/
theorem Reachable.step {a : Aggregator} (h : a.Reachable) (op : Operation) :
    (a.step op).Reachable := by
  obtain ⟨n, spread, ops, rfl⟩ := h
  exact ⟨n, spread, ops ++ [op], by rw [run, List.foldl_append]; rfl⟩

/-- What every operation keeps holds of all reachable states. -/
theorem Reachable.induction {P : Aggregator → Prop} (start : ∀ n spread, P (new n spread))
    (step : ∀ a op, P a → P (a.step op)) {a : Aggregator} (h : a.Reachable) : P a := by
  obtain ⟨n, spread, ops, rfl⟩ := h
  exact run_induction (start n spread) fun a op _ => step a op

/-- What every operation on records of this library keeps holds of all states that such
operations lead to. -/
theorem RecordReachable.induction {P : Aggregator → Prop} (start : ∀ n spread, P (new n spread))
    (step : ∀ a op, op.OnRecords → P a → P (a.step op)) {a : Aggregator}
    (h : a.RecordReachable) : P a := by
  obtain ⟨n, spread, ops, hops, rfl⟩ := h
  exact run_induction (start n spread) fun a op hop => step a op (hops op hop)

/-- The aggregation with its derived values filled in and its order kept, and the order. -/
def rebuilt (a : Aggregator) : Aggregator × List String :=
  ({ a with
    table := (a.table.rebuild a.layout a.ordering).1
    kept := some ⟨a.generation, (a.table.rebuild a.layout a.ordering).2⟩
    counters := { a.counters with sortRebuilds := a.counters.sortRebuilds + 1 } },
    (a.table.rebuild a.layout a.ordering).2)

/-- Asking for the order gives the one that is kept if it is of this generation, and
otherwise computes it. -/
theorem sortedKeys_cases (a : Aggregator) :
    (∃ kept, a.kept = some kept ∧ kept.generation = a.generation ∧
      a.sortedKeys = (a, kept.keys)) ∨
    ((∀ kept, a.kept = some kept → kept.generation ≠ a.generation) ∧
      a.sortedKeys = a.rebuilt) := by
  unfold sortedKeys
  cases a.kept with
  | none => exact .inr ⟨fun _ h => (nomatch h), rfl⟩
  | some kept =>
    by_cases hcurrent : kept.generation = a.generation
    · exact .inl ⟨kept, rfl, hcurrent, by simp only [if_pos hcurrent]⟩
    · refine .inr ⟨fun _ h => ?_, by simp only [if_neg hcurrent]; rfl⟩
      obtain rfl := Option.some.inj h
      exact hcurrent

/-- Asking for the order leaves the groups or fills in their derived values. -/
theorem table_sortedKeys (a : Aggregator) :
    a.sortedKeys.1.table = a.table ∨
      a.sortedKeys.1.table = a.table.mapTallies (Derived.fill a.layout) := by
  rcases a.sortedKeys_cases with ⟨kept, -, -, h⟩ | ⟨-, h⟩
  · exact .inl (by rw [h])
  · exact .inr (by rw [h]; rfl)

/-- What asking for the order leaves as it was. -/
theorem sortedKeys_keeps (a : Aggregator) :
    a.sortedKeys.1.layout = a.layout ∧ a.sortedKeys.1.pairOnce = a.pairOnce ∧
      a.sortedKeys.1.ordering = a.ordering ∧ a.sortedKeys.1.generation = a.generation := by
  rcases a.sortedKeys_cases with ⟨kept, -, -, h⟩ | ⟨-, h⟩
  · rw [h]
    exact ⟨rfl, rfl, rfl, rfl⟩
  · rw [h]
    exact ⟨rfl, rfl, rfl, rfl⟩

/-- The order is kept: asking again changes nothing. -/
theorem sortedKeys_sortedKeys (a : Aggregator) : a.sortedKeys.1.sortedKeys = a.sortedKeys := by
  have hcurrent : ∀ (b : Aggregator) (keys : List String), b.kept = some ⟨b.generation, keys⟩ →
      b.sortedKeys = (b, keys) := by
    intro b keys hkept
    simp only [sortedKeys, hkept, if_true]
  rcases a.sortedKeys_cases with ⟨kept, -, -, h⟩ | ⟨-, h⟩
  · rw [h, h]
  · rw [h]
    exact hcurrent _ _ rfl

/-- Reading leaves an aggregation as it is or asks for its order. -/
def ReadsTo (a b : Aggregator) : Prop := b = a ∨ b = a.sortedKeys.1

/-- Reading twice is reading once. -/
theorem ReadsTo.trans {a b c : Aggregator} (hab : a.ReadsTo b) (hbc : b.ReadsTo c) :
    a.ReadsTo c := by
  rcases hab with rfl | rfl
  · exact hbc
  · rcases hbc with rfl | rfl
    · exact .inr rfl
    · exact .inr (by rw [sortedKeys_sortedKeys])

/-- What reading leaves as it was. -/
theorem ReadsTo.keeps {a b : Aggregator} (h : a.ReadsTo b) :
    b.layout = a.layout ∧ b.pairOnce = a.pairOnce ∧ b.ordering = a.ordering ∧
      b.generation = a.generation := by
  rcases h with rfl | rfl
  · exact ⟨rfl, rfl, rfl, rfl⟩
  · exact a.sortedKeys_keeps

/-- Reading leaves the groups or fills in their derived values. -/
theorem ReadsTo.table_cases {a b : Aggregator} (h : a.ReadsTo b) :
    b.table = a.table ∨ b.table = a.table.mapTallies (Derived.fill a.layout) := by
  rcases h with rfl | rfl
  · exact .inl rfl
  · exact a.table_sortedKeys

/-- Filling a record asks for the order of the results, if there is a record and a group. -/
theorem materialize_fst {R : Type} [FlowRecord R] (a : Aggregator) (c : Cursor) (out : R) :
    (a.materialize c out).1 =
      if FlowRecord.isAllocated out && !a.table.isEmpty then a.sortedKeys.1 else a := by
  unfold materialize
  cases FlowRecord.isAllocated out with
  | false => rfl
  | true =>
    cases a.table.isEmpty with
    | true => rfl
    | false =>
      simp only [Bool.not_true, Bool.not_false, Bool.and_self, Bool.false_eq_true, if_false, if_true]
      split <;> rfl

/-- Filling a record only reads. -/
theorem readsTo_materialize {R : Type} [FlowRecord R] (a : Aggregator) (c : Cursor) (out : R) :
    a.ReadsTo (a.materialize c out).1 := by
  rw [materialize_fst]
  split
  · exact .inr rfl
  · exact .inl rfl

/-- Walking through the groups only reads. -/
theorem readsTo_walkFrom (a : Aggregator) (c : Cursor) (room : Nat) :
    a.ReadsTo (a.walkFrom c room).1 := by
  induction room generalizing a c with
  | zero => exact .inl rfl
  | succ room ih =>
    have hfirst := readsTo_materialize a c Record.empty
    unfold walkFrom
    split
    · next b _ e hmaterialize => rwa [hmaterialize] at hfirst
    · next b out hmaterialize =>
      rw [hmaterialize] at hfirst
      split
      · exact hfirst
      · next next _ =>
        have hrest := hfirst.trans (ih b next)
        split
        · next d outs hwalk => rwa [hwalk] at hrest
        · next d e hwalk => rwa [hwalk] at hrest

/-- Writing the results only reads. -/
theorem readsTo_report (a : Aggregator) (format : OutputFormat) (limit : Nat) :
    a.ReadsTo (a.report format limit).1 := by
  have hwalk : a.ReadsTo (a.walk limit).1 := by
    unfold walk
    split
    · exact .inl rfl
    · exact readsTo_walkFrom a _ _
  unfold report
  dsimp only
  split
  · next b e h => rwa [h] at hwalk
  · next b records h => rwa [h] at hwalk

/-- Configuring a field is refused, or puts a new layout in place and drops the groups if
its shape is new. -/
theorem configure_cases (a : Aggregator) (r : ColumnRequest) :
    (a.layout.configure r = none ∧ (a.configure r).1 = a.touch) ∨
      ∃ l, a.layout.configure r = some l ∧ (a.configure r).1 = { a.touch with
        layout := l
        table := if l.shape = a.layout.shape then a.table else a.table.clear } := by
  unfold configure
  cases a.layout.configure r with
  | none => exact .inl ⟨rfl, rfl⟩
  | some l => exact .inr ⟨l, rfl, rfl⟩

/-- No operation changes what clearing the table leaves. -/
theorem clear_table_step (a : Aggregator) (op : Operation) :
    (a.step op).table.clear = a.table.clear := by
  have hread : ∀ {a' : Aggregator}, a.ReadsTo a' → a'.table.clear = a.table.clear := by
    intro a' h
    rcases h.table_cases with htable | htable
    · rw [htable]
    · rw [htable, TallyTable.clear_mapTallies]
  cases op with
  | configure r =>
    rcases a.configure_cases r with ⟨-, hsame⟩ | ⟨l, -, hput⟩
    · rw [step, hsame]
      rfl
    · rw [step, hput]
      dsimp only
      split
      · rfl
      · exact a.table.clear_clear
  | write r => rw [step, table_write, TallyTable.clear_addShares]
  | materialize c out => exact hread (readsTo_materialize a c out)
  | report format limit => exact hread (readsTo_report a format limit)
  | clear => exact a.table.clear_clear
  | _ => rfl

/-- Clearing the table after a run leaves what clearing it before leaves. -/
theorem clear_table_run (a : Aggregator) (ops : List Operation) :
    (a.run ops).table.clear = a.table.clear :=
  run_induction (P := fun b => b.table.clear = a.table.clear) rfl
    fun b op _ hb => (b.clear_table_step op).trans hb

end Aggregator

end FlowTally
