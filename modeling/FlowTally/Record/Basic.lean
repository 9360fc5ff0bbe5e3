import FlowTally.Assoc
import FlowTally.FieldId

/-!
# Flow records

The aggregation reads and writes records only through the class `FlowRecord`. The
record of this library keeps one value per field; a pair field has no cell of its
own: reading it gives the source member, writing it sets both members.
-/

namespace FlowTally

/-- Why a field of a record cannot be read or written. -/
inductive RecordError where
  /-- The record has no storage. -/
  | notAllocated
  /-- The field is not in the catalog. -/
  | unknownField (field : FieldId)
  /-- The field has no value. -/
  | notSet (field : FieldId)
  /-- The value has not the type of the field. -/
  | typeMismatch (field : FieldId) (expected actual : ValueType)
deriving DecidableEq, Repr

/-- The wording of a record error. -/
def RecordError.message : RecordError → String
  | .notAllocated => "record is not allocated"
  | .unknownField field => "unknown field " ++ field.label
  | .notSet field => "field " ++ field.label ++ " is not set"
  | .typeMismatch field expected actual =>
    "field " ++ field.label ++ " expects " ++ expected.name ++ ", got " ++ actual.name

/-- Access to the fields of one flow record. -/
class FlowRecord (R : Type) where
  /-- Whether the record has storage. -/
  isAllocated : R → Bool
  /-- Reads a field; one without a value gives `notSet`. -/
  get : R → FieldId → Except RecordError Value
  /-- Writes a field. -/
  set : R → FieldId → Value → Except RecordError R
  /-- The record with no field set. -/
  clear : R → R

/-- The fields whose cells a field writes. -/
def FieldId.cells (field : FieldId) : List FieldId :=
  match field.members? with
  | some (source, destination) => [source, destination]
  | none => [field]

/-- The cells that a field writes are no pairs and have its type. -/
theorem FieldId.cells_types {field f : FieldId} (hf : f ∈ field.cells) :
    f.type? = field.type? ∧ f.isPair = false := by
  unfold FieldId.cells at hf
  cases hm : field.members? with
  | none =>
    rw [hm] at hf
    obtain rfl := List.mem_singleton.mp hf
    exact ⟨rfl, by simp [FieldId.isPair, hm]⟩
  | some members =>
    obtain ⟨source, destination⟩ := members
    rw [hm] at hf
    obtain ⟨hsource, hdestination⟩ := FieldId.pairs_types _ (FieldId.mem_pairs_of_members? hm)
    rcases List.mem_cons.mp hf with rfl | hf
    · exact hsource
    · obtain rfl := List.mem_singleton.mp hf
      exact hdestination

/-- Fields with their values, in ascending order. -/
abbrev Cells := List (FieldId × Value)

namespace Cells

/-- No pair has a value, and each value has the type of its field. -/
def Typed (cells : Cells) : Prop :=
  ∀ c ∈ cells, c.1.type? = some c.2.type ∧ c.1.isPair = false

/-- The cells after a value is stored for a field. -/
def store (field : FieldId) (value : Value) (cells : Cells) : Cells :=
  field.cells.foldl (fun cells f => Assoc.insert f value cells) cells

/-- Storing a value keeps the order. -/
theorem ascending_store (field : FieldId) (value : Value) {cells : Cells}
    (h : Assoc.Ascending cells) : Assoc.Ascending (store field value cells) := by
  unfold store
  generalize field.cells = fields
  induction fields generalizing cells with
  | nil => exact h
  | cons f rest ih => exact ih (h.insert FieldId.lt_trans FieldId.lt_of_not_lt f value)

/-- Storing a value of the type of its field keeps the types. -/
theorem Typed.store {field : FieldId} {value : Value} (htype : field.type? = some value.type)
    {cells : Cells} (h : Typed cells) : Typed (store field value cells) := by
  have hfields : ∀ f ∈ field.cells, f.type? = some value.type ∧ f.isPair = false := by
    intro f hf
    rw [← htype]
    exact FieldId.cells_types hf
  unfold Cells.store
  generalize field.cells = fields at hfields ⊢
  induction fields generalizing cells with
  | nil => exact h
  | cons f rest ih =>
    refine ih ?_ fun g hg => hfields g (List.mem_cons_of_mem f hg)
    intro c hc
    rcases Assoc.mem_keys_insert f value cells c hc with rfl | hc
    · exact hfields f List.mem_cons_self
    · exact h c hc

end Cells

/-- A record that keeps its values in memory. -/
structure Record where
  /-- Whether the record has storage. -/
  allocated : Bool
  /-- The fields with a value. -/
  cells : Cells
  /-- The fields stand in ascending order. -/
  ascending : Assoc.Ascending cells
  /-- Pairs have no cell, and each value has the type of its field. -/
  typed : cells.Typed
  /-- Without storage no field has a value. -/
  cells_eq_nil : allocated = false → cells = []
deriving DecidableEq, Repr

namespace Record

/-- The record with no field set. -/
def clear (r : Record) : Record where
  allocated := r.allocated
  cells := []
  ascending := List.Pairwise.nil
  typed := fun _ hc => absurd hc List.not_mem_nil
  cells_eq_nil := fun _ => rfl

/-- An allocated record with no field set. -/
def empty : Record where
  allocated := true
  cells := []
  ascending := List.Pairwise.nil
  typed := fun _ hc => absurd hc List.not_mem_nil
  cells_eq_nil := fun _ => rfl

/-- A record without storage: every access fails. -/
def unallocated : Record := { empty with allocated := false, cells_eq_nil := fun _ => rfl }

/-- The field whose cell a field is read from. -/
def cellOf (field : FieldId) : FieldId := (field.members?.map (·.1)).getD field

/-- Reads a field. -/
def get (r : Record) (field : FieldId) : Except RecordError Value :=
  if !r.allocated then .error .notAllocated
  else match field.info? with
    | none => .error (.unknownField field)
    | some _ =>
      match Assoc.lookup (cellOf field) r.cells with
      | some v => .ok v
      | none => .error (.notSet field)

/-- The cell of a field has its type. -/
theorem type_cellOf (field : FieldId) : (cellOf field).type? = field.type? := by
  unfold cellOf
  cases hm : field.members? with
  | none => rfl
  | some members =>
    obtain ⟨source, destination⟩ := members
    exact (FieldId.pairs_types _ (FieldId.mem_pairs_of_members? hm)).1.1

/-- A value that is read has the type of its field. -/
theorem type_of_get {r : Record} {field : FieldId} {v : Value} (h : r.get field = .ok v) :
    field.type? = some v.type := by
  unfold get at h
  split at h
  · cases h
  · split at h
    · cases h
    · split at h
      · next w hw =>
        obtain rfl := Except.ok.inj h
        rw [← type_cellOf]
        exact (r.typed _ (Assoc.mem_of_lookup hw)).1
      · cases h

/-- Writes a field. A value of the wrong type is refused. -/
def set (r : Record) (field : FieldId) (value : Value) : Except RecordError Record :=
  if ha : r.allocated = false then .error .notAllocated
  else match ht : field.type? with
    | none => .error (.unknownField field)
    | some expected =>
      if hv : expected = value.type then .ok
        { allocated := r.allocated
          cells := r.cells.store field value
          ascending := Cells.ascending_store field value r.ascending
          typed := r.typed.store (hv ▸ ht)
          cells_eq_nil := fun h => absurd h ha }
      else .error (.typeMismatch field expected value.type)

/-- The fields with a value, in ascending order. -/
def fields (r : Record) : List FieldId := r.cells.map (·.1)

instance : FlowRecord Record where
  isAllocated := Record.allocated
  get := Record.get
  set := Record.set
  clear := Record.clear

end Record

end FlowTally
