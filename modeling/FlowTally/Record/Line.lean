import FlowTally.Json.Printer
import FlowTally.Json.Reader
import FlowTally.Record.Basic
import FlowTally.Time.Reader

/-!
# Records as JSON lines

A line is an object whose members are named after fields. Words and floating-point
numbers are JSON numbers; a point in time is a text or a number of milliseconds;
addresses and texts are texts, byte strings are hexadecimal texts. A null member
counts as missing. Members are taken in ascending order of their names.
-/

namespace FlowTally

/-- Why the value of a field cannot be read. -/
inductive ValueError where
  /-- A value of another kind was expected; `kind` is the one found. -/
  | expected (what kind : String)
  /-- A word is expected, and this value is none. -/
  | notUnsigned (value : Json)
  /-- The number does not fit the width of the field. -/
  | tooWide (n : UInt64)
  /-- The number is no whole number of milliseconds. -/
  | notMillis (n : Json.Number)
  /-- The number of milliseconds lies outside of time. -/
  | millisOutOfRange (ms : Int)
  /-- The text is no point in time. -/
  | badInstant (text : String) (cause : Instant.ReadError)
  /-- The text is no address. -/
  | badAddress (text : String)
  /-- The text is no link-layer address. -/
  | badMac (cause : InvalidMac)
  /-- The text is no byte string. -/
  | badHex (cause : Text.HexError)
deriving Repr

/-- The wording of a value error. -/
def ValueError.message : ValueError → String
  | .expected what kind => "expected " ++ what ++ ", got " ++ kind
  | .notUnsigned value => "expected an unsigned integer, got " ++ value.compact
  | .tooWide n => s!"{n} out of range"
  | .notMillis n => (Json.num n).compact ++ " is not integral milliseconds"
  | .millisOutOfRange ms => s!"{ms} ms out of range"
  | .badInstant text cause => Text.quoted text ++ ": " ++ cause.message
  | .badAddress text => Text.quoted text ++ ": invalid IP address syntax"
  | .badMac cause => cause.message
  | .badHex cause => cause.message

/-- Why a line is no record. -/
inductive LineError where
  /-- The line is no JSON text. -/
  | malformed
  /-- The line is a JSON text of another kind. -/
  | notAnObject (kind : String)
  /-- A member is named after no field. -/
  | unknownName (name : String)
  /-- A member has a value that its field cannot have. -/
  | invalidValue (field : FieldId) (cause : ValueError)
  /-- The record refuses a value. -/
  | refused (cause : RecordError)
deriving Repr

/-- The wording of a line error. -/
def LineError.message : LineError → String
  | .malformed => "malformed JSON"
  | .notAnObject kind => "expected a JSON object, got " ++ kind
  | .unknownName name => "unknown field name " ++ Text.quoted name
  | .invalidValue field cause => "field " ++ field.label ++ ": " ++ cause.message
  | .refused cause => cause.message

namespace Value

/-- The word that a JSON value holds. -/
def unsigned (raw : Json) : Except ValueError UInt64 :=
  match raw with
  | .num n => match n.toUInt64? with
    | some n => .ok n
    | none => .error (.notUnsigned raw)
  | _ => .error (.notUnsigned raw)

/-- The word that a JSON value holds, if it is below a bound. -/
def unsignedBelow (bound : Nat) (raw : Json) : Except ValueError UInt64 := do
  let n ← unsigned raw
  if n.toNat < bound then .ok n else .error (.tooWide n)

/-- The text that a JSON value holds. -/
def textOf : Json → Except ValueError String
  | .str s => .ok s
  | raw => .error (.expected "a string" raw.kind)

/-- The point in time that a JSON value holds. -/
def instantOf : Json → Except ValueError Instant
  | .num n =>
    match n.toInt64? with
    | none => .error (.notMillis n)
    | some ms => match Instant.ofMillis? ms with
      | some t => .ok t
      | none => .error (.millisOutOfRange ms)
  | .str s =>
    match Instant.read s with
    | .ok t => .ok t
    | .error e => .error (.badInstant s e)
  | raw => .error (.expected "a timestamp" raw.kind)

/-- The value of a type that a JSON value holds. -/
def ofJson (type : ValueType) (raw : Json) : Except ValueError Value :=
  match type with
  | .u8 => do
    let n ← unsignedBelow UInt8.size raw
    .ok (.u8 n.toUInt8)
  | .u16 => do
    let n ← unsignedBelow UInt16.size raw
    .ok (.u16 n.toUInt16)
  | .u32 => do
    let n ← unsignedBelow UInt32.size raw
    .ok (.u32 n.toUInt32)
  | .u64 => do
    let n ← unsigned raw
    .ok (.u64 n)
  | .f64 =>
    match raw with
    | .num n => .ok (.f64 n.toBinary64)
    | raw => .error (.expected "a number" raw.kind)
  | .timestamp => do
    let t ← instantOf raw
    .ok (.timestamp t)
  | .addr => do
    let s ← textOf raw
    match Address.read? s with
    | some a => .ok (.addr a)
    | none => .error (.badAddress s)
  | .mac => do
    let s ← textOf raw
    match Mac.read s with
    | .ok m => .ok (.mac m)
    | .error e => .error (.badMac e)
  | .string => do
    let s ← textOf raw
    .ok (.string s)
  | .blob => do
    let s ← textOf raw
    match Text.readHex s with
    | .ok bytes => .ok (.blob bytes)
    | .error e => .error (.badHex e)

/-- The JSON value of a value. A floating-point number that is not finite is null. -/
def toJson : Value → Json
  | .u8 n => .num (.integer n.toNat)
  | .u16 n => .num (.integer n.toNat)
  | .u32 n => .num (.integer n.toNat)
  | .u64 n => .num (.integer n.toNat)
  | .f64 x => if x.isFinite then .num (.float x) else .null
  | .timestamp t => .str (String.ofList t.lineText)
  | v => .str (String.ofList v.tableText)

end Value

namespace Record

/-- Adds one member of a line to a record. -/
def addMember (r : Record) (name : String) (raw : Json) : Except LineError Record :=
  match raw with
  | .null => .ok r
  | raw =>
    match FieldId.ofName? name with
    | none => .error (.unknownName name)
    | some field =>
      match field.type? with
      | none => .error (.refused (.unknownField field))
      | some type =>
        match Value.ofJson type raw with
        | .error e => .error (.invalidValue field e)
        | .ok value =>
          match r.set field value with
          | .ok r => .ok r
          | .error e => .error (.refused e)

/-- Adds the members of a line one after the other. -/
def addMembers (r : Record) : List (String × Json) → Except LineError Record
  | [] => .ok r
  | (name, raw) :: rest =>
    match addMember r name raw with
    | .ok r => addMembers r rest
    | .error e => .error e

/-- The record of a JSON value. -/
def ofJson : Json → Except LineError Record
  | .obj members => addMembers empty members
  | value => .error (.notAnObject value.kind)

/-- The record of a line. -/
def ofLine (line : String) : Except LineError Record :=
  match Json.read? line with
  | some value => ofJson value
  | none => .error .malformed

end Record

/-- Collects the members of the given fields that have a value. -/
def FlowRecord.membersOf {R : Type} [FlowRecord R] (r : R) :
    List FieldId → Except RecordError (List (String × Json))
  | [] => .ok []
  | field :: rest =>
    match FlowRecord.get r field with
    | .error (.notSet _) => membersOf r rest
    | .error e => .error e
    | .ok v =>
      match membersOf r rest with
      | .error e => .error e
      | .ok members => .ok ((field.name, v.toJson) :: members)

/-- The object of the given fields of a record; a field without a value is left
out. -/
def FlowRecord.toJson {R : Type} [FlowRecord R] (r : R) (fields : List FieldId) :
    Except RecordError Json :=
  match FlowRecord.membersOf r fields with
  | .ok members => .ok (.ofMembers members)
  | .error e => .error e

end FlowTally
