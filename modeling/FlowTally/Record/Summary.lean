import FlowTally.Record.Basic

/-!
# The basic part of a record

The fields that nearly every flow record has, read and written in one step.
-/

namespace FlowTally

/-- The fields that nearly every flow record has. -/
structure FlowSummary where
  /-- Start of the flow. -/
  first : Instant
  /-- End of the flow. -/
  last : Instant
  /-- Source address. -/
  srcAddr : Address
  /-- Destination address. -/
  dstAddr : Address
  /-- Source port. -/
  srcPort : UInt16
  /-- Destination port. -/
  dstPort : UInt16
  /-- Transport protocol. -/
  protocol : UInt8
  /-- Bytes of the flow. -/
  bytes : UInt64
  /-- Packets of the flow. -/
  packets : UInt64
  /-- Flows behind the record. -/
  flows : UInt64
deriving DecidableEq, Repr

namespace FlowSummary

/-- The fields and their values, in the order they are written in. -/
def assignments (s : FlowSummary) : List (FieldId × Value) :=
  [(.first, .timestamp s.first), (.last, .timestamp s.last),
   (.srcAddr, .addr s.srcAddr), (.dstAddr, .addr s.dstAddr),
   (.srcPort, .u16 s.srcPort), (.dstPort, .u16 s.dstPort),
   (.protocol, .u8 s.protocol), (.bytes, .u64 s.bytes),
   (.packets, .u64 s.packets), (.flows, .u64 s.flows)]

variable {R : Type} [FlowRecord R]

/-- Writes fields one after the other up to the first that is refused. The record
comes back as far as it was written. -/
def writeAll (r : R) : List (FieldId × Value) → R × Except RecordError Unit
  | [] => (r, .ok ())
  | (field, value) :: rest =>
    match FlowRecord.set r field value with
    | .ok r => writeAll r rest
    | .error e => (r, .error e)

/-- Writes the basic part of a record. -/
def write (s : FlowSummary) (r : R) : R × Except RecordError Unit :=
  writeAll r s.assignments

/-- Reads a field; one without a value reads as the zero of its type. -/
def getOrZero (r : R) (field : FieldId) : Except RecordError Value :=
  match FlowRecord.get r field with
  | .ok v => .ok v
  | .error (.notSet _) =>
    match field.type? with
    | some type => .ok type.zero
    | none => .error (.unknownField field)
  | .error e => .error e

/-- Reads a field that must hold a value of one type. -/
def getAs {α : Type} (r : R) (field : FieldId) (type : ValueType) (cast : Value → Option α) :
    Except RecordError α :=
  match getOrZero r field with
  | .error e => .error e
  | .ok v => match cast v with
    | some a => .ok a
    | none => .error (.typeMismatch field type v.type)

/-- Reads the basic part of a record. -/
def read (r : R) : Except RecordError FlowSummary := do
  let instant (field : FieldId) := getAs r field .timestamp Value.toInstant?
  let addr (field : FieldId) := getAs r field .addr fun
    | .addr a => some a
    | _ => none
  let port (field : FieldId) := getAs r field .u16 fun
    | .u16 n => some n
    | _ => none
  let counter (field : FieldId) := getAs r field .u64 fun
    | .u64 n => some n
    | _ => none
  let first ← instant .first
  let last ← instant .last
  let srcAddr ← addr .srcAddr
  let dstAddr ← addr .dstAddr
  let srcPort ← port .srcPort
  let dstPort ← port .dstPort
  let protocol ← getAs r .protocol .u8 fun
    | .u8 n => some n
    | _ => none
  let bytes ← counter .bytes
  let packets ← counter .packets
  let flows ← counter .flows
  .ok ⟨first, last, srcAddr, dstAddr, srcPort, dstPort, protocol, bytes, packets, flows⟩

end FlowSummary

end FlowTally
