import FlowTally.Aggregator.Basic
import FlowTally.Proofs.Layout.Columns
import FlowTally.Proofs.Record.Cells

/-!
# What a layout reads from a record

A record with storage can be read through every layout that was configured: each column finds the
value of a cell, or that the cell is empty. So such a record always contributes, and what it
contributes is told by its cells.
-/

namespace FlowTally

/-- The field that is read on a side has the type of the field. -/
theorem Side.type_resolve (side : Side) (field : FieldId) :
    (side.resolve field).type? = field.type? := by
  unfold Side.resolve
  cases hm : field.members? with
  | none => cases side <;> rfl
  | some members =>
    obtain ⟨source, destination⟩ := members
    obtain ⟨hsource, hdestination⟩ := FieldId.pairs_types _ (FieldId.mem_pairs_of_members? hm)
    cases side with
    | plain => rfl
    | source => exact hsource.1
    | destination => exact hdestination.1

namespace FieldId

/-- A field that is no pair is read as such on each side. -/
theorem resolve_of_isPair {f : FieldId} (h : f.isPair = false) (side : Side) :
    side.resolve f = f := by
  have hnone : f.members? = none := Option.isSome_eq_false_iff.mp h |> Option.isNone_iff_eq_none.mp
  unfold Side.resolve
  rw [hnone]
  cases side <;> rfl

/-- The values of a pair are neither floating-point numbers nor points in time. -/
theorem type_of_isPair {f : FieldId} (h : f.isPair = true) :
    f.type? ≠ some .f64 ∧ f.type? ≠ some .timestamp := by
  have hall : ∀ p ∈ pairs, p.1.type? ≠ some .f64 ∧ p.1.type? ≠ some .timestamp := by decide
  obtain ⟨members, hmembers⟩ := Option.isSome_iff_exists.mp h
  exact hall _ (mem_pairs_of_members? hmembers)

end FieldId

namespace Record

/-- The value that a record has for a key column on a side. An empty cell counts as zero. -/
def keyOf (r : Record) (side : Side) (c : Column) : Value :=
  ((Assoc.lookup (cellOf (side.resolve c.field)) r.cells).getD c.type.zero).truncate c.v4Bits c.v6Bits

/-- The value that a record has for a value column, if its cell is not empty. -/
def valueOf (r : Record) (c : Column) : Option Value := Assoc.lookup (cellOf c.field) r.cells

/-- The value of a key column has the type of the column. -/
theorem type_keyOf (r : Record) (side : Side) {c : Column} (hc : c.FromCatalog) :
    (r.keyOf side c).type = c.type := by
  rw [keyOf, Value.type_truncate]
  cases hheld : Assoc.lookup (cellOf (side.resolve c.field)) r.cells with
  | none => rw [Option.getD_none, Value.type_zero]
  | some v =>
    have htype := (r.typed _ (Assoc.mem_of_lookup hheld)).1
    rw [type_cellOf, side.type_resolve, hc.type_eq] at htype
    exact (Option.some.inj htype).symm

/-- A column that is no pair has one value on all sides of a record. -/
theorem keyOf_of_isPair (r : Record) {c : Column} (h : c.field.isPair = false)
    (side side' : Side) : r.keyOf side c = r.keyOf side' c := by
  rw [keyOf, keyOf, FieldId.resolve_of_isPair h, FieldId.resolve_of_isPair h]

end Record

namespace Layout

variable {r : Record}

/-- A key column of the catalog is read from its cell. -/
theorem keyValue_eq (ha : r.allocated = true) (side : Side) {c : Column} (hc : c.FromCatalog) :
    keyValue r side c = .ok (r.keyOf side c) := by
  have htype : (side.resolve c.field).type?.isSome = true := by
    rw [side.type_resolve, hc.type_eq, Option.isSome_some]
  have hget : FlowRecord.get r (side.resolve c.field) =
      Record.shown _ (Assoc.lookup (Record.cellOf (side.resolve c.field)) r.cells) :=
    Record.get_eq ha htype
  rw [keyValue, hget, Record.keyOf]
  cases Assoc.lookup (Record.cellOf (side.resolve c.field)) r.cells <;> rfl

/-- The key columns are read from their cells. -/
theorem keyValues_eq (ha : r.allocated = true) (side : Side) {columns : List Column}
    (hcolumns : ∀ c ∈ columns, c.FromCatalog) :
    keyValues r side columns = .ok (columns.map (r.keyOf side)) := by
  induction columns with
  | nil => rfl
  | cons c rest ih =>
    rw [keyValues, keyValue_eq ha side (hcolumns c List.mem_cons_self),
      ih fun d hd => hcolumns d (List.mem_cons_of_mem c hd), List.map_cons]

/-- A value column of the catalog is read from its cell. -/
theorem columnValue_eq (ha : r.allocated = true) {c : Column} (hc : c.FromCatalog) :
    columnValue r c = .ok (r.valueOf c) := by
  have htype : c.field.type?.isSome = true := by rw [hc.type_eq, Option.isSome_some]
  have hget : FlowRecord.get r c.field =
      Record.shown _ (Assoc.lookup (Record.cellOf c.field) r.cells) :=
    Record.get_eq ha htype
  rw [columnValue, hget, Record.valueOf]
  cases Assoc.lookup (Record.cellOf c.field) r.cells <;> rfl

/-- The value columns are read from their cells. -/
theorem columnValues_eq (ha : r.allocated = true) {columns : List Column}
    (hcolumns : ∀ c ∈ columns, c.FromCatalog) :
    columnValues r columns = .ok (columns.map r.valueOf) := by
  induction columns with
  | nil => rfl
  | cons c rest ih =>
    rw [columnValues, columnValue_eq ha (hcolumns c List.mem_cons_self),
      ih fun d hd => hcolumns d (List.mem_cons_of_mem c hd), List.map_cons]

end Layout

namespace Aggregator

/-- A record with storage contributes what its cells hold: under one key, or under one for each
side where pairs are grouped by. -/
theorem contribution_eq {a : Aggregator} (hl : a.layout.Valid) {r : Record}
    (ha : r.allocated = true) :
    a.contribution r = .ok
      { keys := a.layout.key.map
          (r.keyOf (if a.layout.isBidirectional then .source else .plain))
        destination := if a.layout.isBidirectional
          then some (a.layout.key.map (r.keyOf .destination)) else none
        values := a.layout.value.map r.valueOf } := by
  have hkey : ∀ c ∈ a.layout.key, c.FromCatalog :=
    fun c hc => hl.fromCatalog c (List.mem_append_left _ hc)
  have hvalue : ∀ c ∈ a.layout.value, c.FromCatalog :=
    fun c hc => hl.fromCatalog c (List.mem_append_right _ hc)
  have hallocated : FlowRecord.isAllocated r = true := ha
  simp only [contribution, hallocated, Layout.keyValues_eq ha _ hkey,
    Layout.columnValues_eq ha hvalue]
  cases a.layout.isBidirectional <;> rfl

/-- A record without storage is refused before anything is read. -/
theorem contribution_of_unallocated (a : Aggregator) {r : Record} (ha : r.allocated = false) :
    a.contribution r = .error .recordNotAllocated := by
  have hallocated : FlowRecord.isAllocated r = false := ha
  simp only [contribution, hallocated, Bool.not_false, if_true]

end Aggregator

end FlowTally
