import FlowTally.Aggregator.Basic
import FlowTally.Record.Line
import FlowTally.Text.Size

/-!
# Results

The groups in the order of the results, as a table with right-aligned columns or as
one JSON object per line. A limit of zero means all groups.
-/

namespace FlowTally

/-- The form of the results. -/
inductive OutputFormat where
  /-- A table with a header. -/
  | table
  /-- One object per line. -/
  | json
deriving DecidableEq, Repr

/-- Results as they are written. -/
structure Report where
  /-- The number of groups. -/
  rows : Nat
  /-- The text. -/
  text : String
deriving DecidableEq, Repr

/-- Why results cannot be written. -/
inductive ReportError where
  /-- The group at a position does not fit a record. -/
  | group (position : Nat) (cause : AggregateError)
  /-- A field of a row cannot be read. -/
  | field (cause : RecordError)
deriving DecidableEq, Repr

/-- The wording of a result error, from the outermost to the innermost cause. -/
def ReportError.causes : ReportError → List String
  | .group position cause => [s!"materializing group {position}", cause.message]
  | .field cause => [cause.message]

namespace Report

/-- The cell of a field in a row. -/
def cell (r : Record) (field : FieldId) : Except RecordError (List Char) :=
  match r.get field with
  | .ok v => .ok v.tableText
  | .error (.notSet _) => .ok ['-']
  | .error e => .error e

/-- The cells of a row. -/
def row (r : Record) : List FieldId → Except RecordError (List (List Char))
  | [] => .ok []
  | field :: rest =>
    match cell r field with
    | .error e => .error e
    | .ok c => match row r rest with
      | .error e => .error e
      | .ok cs => .ok (c :: cs)

/-- The rows of several records. -/
def rows? (fields : List FieldId) : List Record → Except RecordError (List (List (List Char)))
  | [] => .ok []
  | r :: rest =>
    match row r fields with
    | .error e => .error e
    | .ok cs => match rows? fields rest with
      | .error e => .error e
      | .ok rows => .ok (cs :: rows)

/-- The widths of the columns: the bytes of the widest cell. -/
def widen (widths : List Nat) (row : List (List Char)) : List Nat :=
  List.zipWith (fun w cell => max w (Text.byteSize cell)) widths row

/-- A cell with blanks in front up to a number of characters. -/
def alignRight (width : Nat) (cell : List Char) : List Char :=
  List.replicate (width - cell.length) ' ' ++ cell

/-- Joins cells with two blanks between each two. -/
def joinCells : List (List Char) → List Char
  | [] => []
  | [c] => c
  | c :: rest => c ++ ' ' :: ' ' :: joinCells rest

/-- One line of a table. -/
def tableLine (widths : List Nat) (row : List (List Char)) : List Char :=
  joinCells (List.zipWith alignRight widths row) ++ ['\n']

/-- A table with the names of the fields on top. -/
def table (fields : List FieldId) (rows : List (List (List Char))) : List Char :=
  let header := fields.map fun f => f.name.toList
  let widths := rows.foldl widen (header.map Text.byteSize)
  (header :: rows).flatMap (tableLine widths)

/-- The lines of several records as objects. -/
def objectLines (fields : List FieldId) : List Record → Except RecordError (List Char)
  | [] => .ok []
  | r :: rest =>
    match FlowRecord.toJson r fields with
    | .error e => .error e
    | .ok value => match objectLines fields rest with
      | .error e => .error e
      | .ok text => .ok (value.print ++ '\n' :: text)

end Report

namespace Aggregator

/-- The records of the groups from a position on, at most `room` of them. -/
def walkFrom (a : Aggregator) (c : Cursor) :
    (room : Nat) → Aggregator × Except ReportError (List Record)
  | 0 => (a, .ok [])
  | room + 1 =>
    match a.materialize c Record.empty with
    | (a, _, .error e) => (a, .error (.group c.position e))
    | (a, out, .ok ()) =>
      match a.nextPosition c with
      | .error _ => (a, .ok [out])
      | .ok next =>
        match walkFrom a next room with
        | (a, .ok outs) => (a, .ok (out :: outs))
        | (a, .error e) => (a, .error e)

/-- The records of the first groups, all of them if the limit is zero. -/
def walk (a : Aggregator) (limit : Nat) : Aggregator × Except ReportError (List Record) :=
  match a.firstPosition with
  | .error _ => (a, .ok [])
  | .ok c => a.walkFrom c (if limit = 0 then a.groupCount else limit)

/-- The results in a form. -/
def report (a : Aggregator) (format : OutputFormat) (limit : Nat) :
    Aggregator × Except ReportError Report :=
  let fields := a.layout.fields
  match a.walk limit with
  | (a, .error e) => (a, .error e)
  | (a, .ok records) =>
    let text := match format with
      | .json => Report.objectLines fields records
      | .table => (Report.rows? fields records).map (Report.table fields)
    (a, match text with
      | .ok text => .ok ⟨records.length, String.ofList text⟩
      | .error e => .error (.field e))

end Aggregator

end FlowTally
