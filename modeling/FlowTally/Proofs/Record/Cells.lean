import FlowTally.Record.Basic
import Mathlib.Data.List.Basic

/-!
# The cells of a record

A record with storage takes every value of the type of its field. A cell holds the value
that was written to it last, through whichever field, and a field is read from its own cell.
-/

namespace FlowTally

namespace FieldId

/-- A field that is no pair writes its own cell alone. -/
theorem cells_of_isPair {f : FieldId} (h : f.isPair = false) : f.cells = [f] := by
  rw [cells, Option.isSome_eq_false_iff.mp h |> Option.isNone_iff_eq_none.mp]

end FieldId

namespace Cells

/-- A value is stored in the cells that its field writes. -/
theorem lookup_store (field cell : FieldId) (value : Value) (cells : Cells) :
    Assoc.lookup cell (cells.store field value) =
      if cell ∈ field.cells then some value else Assoc.lookup cell cells := by
  unfold store
  generalize field.cells = fields
  induction fields generalizing cells with
  | nil => rfl
  | cons f rest ih =>
    rw [List.foldl_cons, ih, Assoc.lookup_insert]
    by_cases hrest : cell ∈ rest
    · rw [if_pos hrest, if_pos (List.mem_cons_of_mem f hrest)]
    · by_cases hf : cell = f
      · rw [if_neg hrest, if_pos hf, if_pos (hf ▸ List.mem_cons_self)]
      · rw [if_neg hrest, if_neg hf, if_neg (by simp [hf, hrest])]

/-- The values that assignments write to a cell, the last one last. -/
def written (cell : FieldId) (assignments : List (FieldId × Value)) : List Value :=
  assignments.filterMap fun x => if cell ∈ x.1.cells then some x.2 else none

/-- The first assignment writes to a cell or leaves it to the others. -/
theorem written_cons (cell : FieldId) (x : FieldId × Value) (rest : List (FieldId × Value)) :
    written cell (x :: rest) =
      if cell ∈ x.1.cells then x.2 :: written cell rest else written cell rest := by
  by_cases hx : cell ∈ x.1.cells
  · simp [written, hx]
  · simp [written, hx]

/-- Assignments behind others write behind them. -/
theorem written_append (cell : FieldId) (assignments more : List (FieldId × Value)) :
    written cell (assignments ++ more) = written cell assignments ++ written cell more :=
  List.filterMap_append

/-- The cells after assignments one after the other. -/
def storeAll (assignments : List (FieldId × Value)) (cells : Cells) : Cells :=
  assignments.foldl (fun cells x => cells.store x.1 x.2) cells

/-- A cell holds what was written to it last, or what it held before. -/
theorem lookup_storeAll (cell : FieldId) (assignments : List (FieldId × Value)) (cells : Cells) :
    Assoc.lookup cell (cells.storeAll assignments) =
      (written cell assignments).getLast?.or (Assoc.lookup cell cells) := by
  induction assignments generalizing cells with
  | nil => rfl
  | cons x rest ih =>
    have hrest := ih (cells.store x.1 x.2)
    rw [lookup_store] at hrest
    rw [storeAll, List.foldl_cons, ← storeAll, hrest, written_cons]
    by_cases hx : cell ∈ x.1.cells
    · rw [if_pos hx, if_pos hx, List.getLast?_cons]
      cases (written cell rest).getLast? <;> rfl
    · rw [if_neg hx, if_neg hx]

end Cells

namespace Record

/-- A field writes the cell it is read from. -/
theorem cellOf_mem_cells (field : FieldId) : cellOf field ∈ field.cells := by
  unfold cellOf FieldId.cells
  cases field.members? with
  | none => exact List.mem_singleton_self field
  | some members => exact List.mem_cons_self

/-- A field that is no pair is read from its own cell. -/
theorem cellOf_of_isPair {f : FieldId} (h : f.isPair = false) : cellOf f = f := by
  have hmem := cellOf_mem_cells f
  rw [FieldId.cells_of_isPair h] at hmem
  exact List.mem_singleton.mp hmem

/-- A field is written to a record with storage, which keeps it, in the cells of the field. -/
theorem set_spec {r s : Record} {field : FieldId} {value : Value} (h : r.set field value = .ok s) :
    r.allocated = true ∧ s.allocated = true ∧ s.cells = r.cells.store field value := by
  unfold set at h
  split at h
  · cases h
  · next hallocated =>
    split at h
    · cases h
    · split at h
      · obtain rfl := Except.ok.inj h
        have ha : r.allocated = true := by simpa using hallocated
        exact ⟨ha, ha, rfl⟩
      · cases h

/-- A record with storage takes a value of the type of its field. -/
theorem exists_set {r : Record} {field : FieldId} {value : Value} (ha : r.allocated = true)
    (htype : field.type? = some value.type) :
    ∃ s : Record, r.set field value = .ok s ∧ s.allocated = true ∧
      s.cells = r.cells.store field value := by
  unfold set
  rw [dif_neg (by simp [ha])]
  split
  · next hnone => simp [hnone] at htype
  · next expected hsome =>
    have hvalue : expected = value.type := Option.some.inj (hsome.symm.trans htype)
    rw [dif_pos hvalue]
    exact ⟨_, rfl, ha, rfl⟩

/-- What reading a field of the catalog gives for the value of its cell. -/
def shown (field : FieldId) : Option Value → Except RecordError Value
  | some v => .ok v
  | none => .error (.notSet field)

/-- A field is read from its cell. -/
theorem get_eq {r : Record} {field : FieldId} (ha : r.allocated = true)
    (hfield : field.type?.isSome = true) :
    r.get field = shown field (Assoc.lookup (cellOf field) r.cells) := by
  obtain ⟨entry, hentry⟩ : ∃ entry, field.info? = some entry := by
    rw [FieldId.type?, Option.isSome_map] at hfield
    exact Option.isSome_iff_exists.mp hfield
  unfold get
  rw [ha, hentry]
  dsimp only
  cases Assoc.lookup (cellOf field) r.cells <;> rfl

end Record

end FlowTally
