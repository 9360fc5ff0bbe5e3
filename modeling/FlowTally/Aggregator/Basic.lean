import FlowTally.Aggregator.Key
import FlowTally.Aggregator.Order

/-!
# The aggregation

Records are written into groups under a layout, and the groups are walked through
in the order of the results. The order and the derived values are kept from one
read to the next; every change raises a generation number, and what was kept is
good only for the generation it was made in. Counters say what happened to the
records.
-/

namespace FlowTally

/-- What happened to the records and groups so far. -/
structure Counters where
  /-- Records that were written. -/
  recordsWritten : Nat
  /-- Records that were refused. -/
  writeErrors : Nat
  /-- Groups that were made. -/
  groupsCreated : Nat
  /-- Additions to a group that was there. -/
  groupsMerged : Nat
  /-- Destination sides left out because their key was that of the source side. -/
  pairsSkipped : Nat
  /-- Times the order of the results was computed. -/
  sortRebuilds : Nat
deriving DecidableEq, Repr

/-- The counters at the start. -/
def Counters.zero : Counters := ⟨0, 0, 0, 0, 0, 0⟩

/-- Counts an addition to the table. -/
def Counters.count (c : Counters) : Added → Counters
  | .created => { c with groupsCreated := c.groupsCreated + 1 }
  | .merged => { c with groupsMerged := c.groupsMerged + 1 }

/-- A position in the order of the results. -/
structure Cursor where
  /-- The number of groups in front of it. -/
  position : Nat
deriving DecidableEq, Repr

/-- The order of the results as it was computed in one generation. -/
structure KeptOrder where
  /-- The generation. -/
  generation : Nat
  /-- The texts of the keys, in the order of the results. -/
  keys : List String
deriving DecidableEq, Repr

/-- Groups of records under a layout. -/
structure Aggregator where
  /-- The columns. -/
  layout : Layout
  /-- The groups. -/
  table : TallyTable
  /-- Whether a record whose two sides have one key counts once. -/
  pairOnce : Bool
  /-- How addresses are ordered. -/
  ordering : AddressOrdering
  /-- The number of changes so far. -/
  generation : Nat
  /-- The order of the results, if it was computed. -/
  kept : Option KeptOrder
  /-- What happened so far. -/
  counters : Counters

namespace Aggregator

/-- No groups and no columns. -/
def new (shards : Nat) (spread : String → Nat) : Aggregator where
  layout := .empty
  table := .new shards spread
  pairOnce := false
  ordering := .legacy
  generation := 0
  kept := none
  counters := .zero

/-- The aggregation after a change. -/
def touch (a : Aggregator) : Aggregator := { a with generation := a.generation + 1 }

/-- Gives a field a column. A request that is refused changes nothing. Groups are
dropped when the key or value columns they were made for change. -/
def configure (a : Aggregator) (r : ColumnRequest) :
    Aggregator × Except AggregateError Unit :=
  match a.layout.configure r with
  | none => (a.touch, .error (.unknownField r.field))
  | some layout =>
    let table := if layout.shape = a.layout.shape then a.table else a.table.clear
    ({ a.touch with layout := layout, table := table }, .ok ())

/-- Says whether a record whose two sides have one key counts once. -/
def setPairOnce (a : Aggregator) (on : Bool) : Aggregator :=
  { a.touch with pairOnce := on }

/-- Says how addresses are ordered. -/
def setOrdering (a : Aggregator) (ordering : AddressOrdering) : Aggregator :=
  { a.touch with ordering := ordering }

/-- What a record adds to the groups: one key with its values, or two that share the
merged values. -/
structure Contribution where
  /-- The key values, of the source side if there are two. -/
  keys : List Value
  /-- The key values of the destination side, if there are two sides. -/
  destination : Option (List Value)
  /-- The merged values. -/
  values : List (Option Value)
deriving DecidableEq, Repr

section

variable {R : Type} [FlowRecord R]

/-- Reads what a record adds. -/
def contribution (a : Aggregator) (r : R) : Except AggregateError Contribution :=
  if !FlowRecord.isAllocated r then .error .recordNotAllocated
  else
    let side := if a.layout.isBidirectional then Side.source else Side.plain
    match Layout.keyValues r side a.layout.key with
    | .error e => .error e
    | .ok keys =>
      match Layout.columnValues r a.layout.value with
      | .error e => .error e
      | .ok values =>
        if !a.layout.isBidirectional then .ok ⟨keys, none, values⟩
        else match Layout.keyValues r .destination a.layout.key with
          | .error e => .error e
          | .ok destination => .ok ⟨keys, some destination, values⟩

/-- Adds values to the group of a key and counts it. -/
def add (a : Aggregator) (keys : List Value) (values : List (Option Value)) : Aggregator :=
  let (table, added) := a.table.add a.layout.value (Value.keyText keys) keys values
  { a with table := table, counters := a.counters.count added }

/-- Adds what a record brings. -/
def addContribution (a : Aggregator) (c : Contribution) : Aggregator :=
  match c.destination with
  | none => a.add c.keys c.values
  | some destination =>
    let once := a.pairOnce && Value.keyText destination = Value.keyText c.keys
    let a := a.add c.keys c.values
    if once then
      { a with counters := { a.counters with pairsSkipped := a.counters.pairsSkipped + 1 } }
    else a.add destination c.values

/-- Writes a record into its group or groups. A record that cannot be read is counted
and changes nothing else. -/
def write (a : Aggregator) (r : R) : Aggregator × Except AggregateError Unit :=
  match a.contribution r with
  | .ok c =>
    let a := (a.addContribution c).touch
    ({ a with counters := { a.counters with recordsWritten := a.counters.recordsWritten + 1 } },
      .ok ())
  | .error e =>
    ({ a with counters := { a.counters with writeErrors := a.counters.writeErrors + 1 } },
      .error e)

/-- The first position. -/
def firstPosition (a : Aggregator) : Except AggregateError Cursor :=
  if a.table.isEmpty then .error .empty else .ok ⟨0⟩

/-- The position behind another. -/
def nextPosition (a : Aggregator) (c : Cursor) : Except AggregateError Cursor :=
  if a.table.size = 0 then .error .empty
  else if a.table.size ≤ c.position + 1 then .error .pastEnd
  else .ok ⟨c.position + 1⟩

/-- The order of the results, computed again if anything changed since it was kept. -/
def sortedKeys (a : Aggregator) : Aggregator × List String :=
  let fresh : Aggregator × List String :=
    let (table, keys) := a.table.rebuild a.layout a.ordering
    ({ a with
        table := table
        kept := some ⟨a.generation, keys⟩
        counters := { a.counters with sortRebuilds := a.counters.sortRebuilds + 1 } }, keys)
  match a.kept with
  | some kept => if kept.generation = a.generation then (a, kept.keys) else fresh
  | none => fresh

/-- Writes values into a record, up to the first that is refused. -/
def fillRecord (r : R) : List (FieldId × Value) → R × Except AggregateError Unit
  | [] => (r, .ok ())
  | (field, value) :: rest =>
    match FlowRecord.set r field value with
    | .ok r => fillRecord r rest
    | .error e => (r, .error (.ofRecordError field e))

/-- The fields and values of a group: its key values, then its merged values that are
present. -/
def assignments (l : Layout) (t : Tally) : List (FieldId × Value) :=
  (l.key.zip t.keys).map (fun (c, v) => (c.field, v)) ++
    (l.value.zip t.values).filterMap fun (c, v) => v.map fun v => (c.field, v)

/-- Fills a record with the group at a position. -/
def materialize (a : Aggregator) (c : Cursor) (out : R) :
    Aggregator × R × Except AggregateError Unit :=
  if !FlowRecord.isAllocated out then (a, out, .error .recordNotAllocated)
  else if a.table.isEmpty then (a, out, .error .empty)
  else
    let (a, keys) := a.sortedKeys
    match (keys[c.position]?).bind a.table.find? with
    | none => (a, out, .error .pastEnd)
    | some tally =>
      let (out, answer) := fillRecord (FlowRecord.clear out) (assignments a.layout tally)
      (a, out, answer)

end

/-- Back to the state at the start, with as many shards. -/
def clear (a : Aggregator) : Aggregator where
  layout := .empty
  table := a.table.clear
  pairOnce := false
  ordering := .legacy
  generation := a.generation + 1
  kept := none
  counters := .zero

/-- The number of groups. -/
def groupCount (a : Aggregator) : Nat := a.table.size

end Aggregator

end FlowTally
