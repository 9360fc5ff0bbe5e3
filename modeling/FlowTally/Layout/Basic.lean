import FlowTally.Layout.Defaults

/-!
# Layouts

A layout says which fields records are grouped by and which fields are merged per
group, and by which column results are ordered. Each field stands in at most one
column. A derived field brings the fields it is computed from along.
-/

namespace FlowTally

/-- The direction in which a column orders the results. -/
inductive SortOrder where
  /-- It does not order them. -/
  | none
  /-- Least values first. -/
  | asc
  /-- Greatest values first. -/
  | desc
deriving DecidableEq, Repr

/-- The two parts of a group. -/
inductive Part where
  /-- The values that records are grouped by. -/
  | key
  /-- The merged values. -/
  | value
deriving DecidableEq, Repr

/-- One column: a field and what becomes of it. -/
structure Column where
  /-- The field. -/
  field : FieldId
  /-- Its aggregation, never `auto`. -/
  kind : Aggregation
  /-- The direction it was configured to order results in. -/
  sort : SortOrder
  /-- Length to which addresses of 32 bits are truncated. -/
  v4Bits : UInt8
  /-- Length to which addresses of 128 bits are truncated. -/
  v6Bits : UInt8
  /-- The type of its values. -/
  type : ValueType
  /-- How its values are merged. -/
  merge : Merge
deriving DecidableEq, Repr

/-- The column that orders the results. -/
structure SortColumn where
  /-- Its field. -/
  field : FieldId
  /-- The part it stands in. -/
  part : Part
  /-- Its position in that part. -/
  position : Nat
  /-- Its direction. -/
  order : SortOrder
  /-- The type of its values. -/
  type : ValueType
deriving DecidableEq, Repr

/-- What is asked of one field. -/
structure ColumnRequest where
  /-- The field. -/
  field : FieldId
  /-- The aggregation, possibly `auto`. -/
  kind : Aggregation
  /-- The direction to order results in. -/
  sort : SortOrder
  /-- Length to truncate addresses of 32 bits to. -/
  v4Bits : UInt8
  /-- Length to truncate addresses of 128 bits to. -/
  v6Bits : UInt8
deriving DecidableEq, Repr

/-- The columns of all groups. -/
structure Layout where
  /-- The columns that records are grouped by. -/
  key : List Column
  /-- The columns that are merged. -/
  value : List Column
  /-- The field and direction that results are ordered by. -/
  sortedBy : Option (FieldId × SortOrder)
deriving DecidableEq, Repr

namespace Layout

/-- The layout without columns. -/
def empty : Layout := ⟨[], [], none⟩

/-- Whether there is no column. -/
def isEmpty (l : Layout) : Bool := l.key.isEmpty && l.value.isEmpty

/-- All columns, those of the key first. -/
def columns (l : Layout) : List Column := l.key ++ l.value

/-- The fields of all columns, those of the key first. -/
def fields (l : Layout) : List FieldId := l.columns.map (·.field)

/-- Whether a pair field is grouped by, so that each record counts for both
directions. -/
def isBidirectional (l : Layout) : Bool := l.key.any fun c => c.field.isPair

/-- The position of the column of a field in a list of columns. -/
def position? (field : FieldId) (columns : List Column) : Option Nat :=
  columns.findIdx? fun c => decide (c.field = field)

/-- The part and position of the column of a field. -/
def locate (l : Layout) (field : FieldId) : Option (Part × Nat) :=
  match position? field l.key with
  | some i => some (.key, i)
  | none => (position? field l.value).map fun i => (.value, i)

/-- Whether a field has a column. -/
def contains (l : Layout) (field : FieldId) : Bool := (l.locate field).isSome

/-- The column that results are ordered by. -/
def sortColumn (l : Layout) : Option SortColumn := do
  let (field, order) ← l.sortedBy
  let (part, position) ← l.locate field
  let type ← field.type?
  some ⟨field, part, position, order, type⟩

/-- The columns without that of a field. -/
def without (field : FieldId) (columns : List Column) : List Column :=
  columns.filter fun c => decide (c.field ≠ field)

/-- The columns with one in place of the column of its field, or behind all. -/
def replaceOrAppend (column : Column) : List Column → List Column
  | [] => [column]
  | c :: rest =>
    if c.field = column.field then column :: rest else c :: replaceOrAppend column rest

/-- Puts a column in the part of its kind and takes the field out of the other. A
column that asks for an order becomes the one that orders the results. -/
def put (l : Layout) (column : Column) : Layout :=
  let sortedBy := if column.sort = .none then l.sortedBy else some (column.field, column.sort)
  if column.kind = .key then
    ⟨replaceOrAppend column l.key, without column.field l.value, sortedBy⟩
  else
    ⟨without column.field l.key, replaceOrAppend column l.value, sortedBy⟩

/-- The column that a catalog entry gets for a request. -/
def columnFor (entry : CatalogEntry) (r : ColumnRequest) : Column :=
  let kind := match r.kind with
    | .auto => entry.field.autoKind entry.type r.v4Bits r.v6Bits
    | kind => kind
  ⟨entry.field, kind, r.sort, r.v4Bits, r.v6Bits, entry.type, .resolve kind entry.type⟩

/-- The request that stands for none. -/
def defaultRequest (field : FieldId) : ColumnRequest := ⟨field, .auto, .none, 0, 0⟩

/-- Gives a field its default column if it has none. -/
def require (l : Layout) (field : FieldId) : Layout :=
  if l.contains field then l
  else match field.info? with
    | some entry => l.put (columnFor entry (defaultRequest field))
    | none => l

/-- Gives a field the column that is asked for, and the fields it needs their default
columns where they have none. There is no column for a field that is not in the
catalog, nor for a composite field with an aggregation of its own. -/
def configure (l : Layout) (r : ColumnRequest) : Option Layout :=
  match r.field.info? with
  | none => none
  | some entry =>
    if !entry.aggregatable ∧ r.kind ≠ .auto then none
    else some (r.field.requirements.foldl require (l.put (columnFor entry r)))

/-- What two layouts must share for a group of the one to fit the other. -/
def shape (l : Layout) : List (FieldId × Aggregation × UInt8 × UInt8) ×
    List (FieldId × Aggregation × UInt8 × UInt8) :=
  let slot (c : Column) := (c.field, c.kind, c.v4Bits, c.v6Bits)
  (l.key.map slot, l.value.map slot)

end Layout

end FlowTally
