import FlowTally.Aggregator.Report
import FlowTally.Config.Setting

/-!
# Configurations

What to group by, what to merge, how to order and write the results. Missing
settings have defaults and unknown ones are ignored. A configuration is checked as a
whole before it is applied; of several faults the first in a fixed order is named.
-/

namespace FlowTally

/-- One field of a configuration. -/
structure FieldSetting where
  /-- The name of the field. -/
  name : String
  /-- Its aggregation. -/
  kind : Aggregation
  /-- The direction in which it orders the results. -/
  sort : SortOrder
  /-- Length to truncate addresses of 32 bits to. -/
  v4Bits : UInt8
  /-- Length to truncate addresses of 128 bits to. -/
  v6Bits : UInt8
deriving DecidableEq, Repr

/-- A configuration. -/
structure Config where
  /-- What is logged. -/
  logLevel : String
  /-- The number of shards of the table. -/
  shards : Nat
  /-- The number of workers that read files. -/
  workers : Nat
  /-- Whether a record whose two sides have one key counts once. -/
  pairOnce : Bool
  /-- How addresses are ordered. -/
  ordering : AddressOrdering
  /-- The greatest number of results; zero means all. -/
  limit : Nat
  /-- The form of the results. -/
  output : OutputFormat
  /-- The fields, in the order they get their columns in. -/
  fields : List FieldSetting
deriving DecidableEq, Repr

/-- Why a configuration is refused. -/
inductive ConfigError where
  /-- There is no field. -/
  | noFields
  /-- There is no shard. -/
  | noShards
  /-- There is no worker. -/
  | noWorkers
  /-- A name is that of no field. -/
  | unknownField (name : String)
  /-- A field stands in the list twice. -/
  | listedTwice (name : String)
  /-- An address of 32 bits has no such length. -/
  | v4TooLong (name : String) (bits : UInt8)
  /-- An address of 128 bits has no such length. -/
  | v6TooLong (name : String) (bits : UInt8)
  /-- Several fields order the results. -/
  | severalSorted (names : List String)
  /-- A field cannot get the column that is asked for. -/
  | refused (name : String) (cause : AggregateError)
deriving DecidableEq, Repr

/-- The wording of a configuration error, from the outermost to the innermost cause. -/
def ConfigError.causes : ConfigError → List String
  | .noFields => ["fields must list at least one field"]
  | .noShards => ["shards must be positive"]
  | .noWorkers => ["workers must be positive"]
  | .unknownField name => ["unknown field: " ++ name]
  | .listedTwice name => ["field listed more than once: " ++ name]
  | .v4TooLong name bits =>
    ["field " ++ name ++ s!": ipv4_prefix must be at most 32, got {bits}"]
  | .v6TooLong name bits =>
    ["field " ++ name ++ s!": ipv6_prefix must be at most 128, got {bits}"]
  | .severalSorted names =>
    ["only one field may be sorted, got: " ++ String.intercalate ", " names]
  | .refused name cause => ["configuring field " ++ name, cause.message]

/-- The aggregation of a word. -/
def Aggregation.ofWord? : String → Option Aggregation
  | "auto" => some .auto
  | "key" => some .key
  | "min" => some .min
  | "max" => some .max
  | "sum" => some .sum
  | "or" => some .or
  | _ => none

/-- The word of an aggregation. -/
def Aggregation.word : Aggregation → String
  | .auto => "auto"
  | .key => "key"
  | .min => "min"
  | .max => "max"
  | .sum => "sum"
  | .or => "or"

/-- The direction of a word. -/
def SortOrder.ofWord? : String → Option SortOrder
  | "none" => some .none
  | "asc" => some .asc
  | "desc" => some .desc
  | _ => Option.none

/-- The word of a direction. -/
def SortOrder.word : SortOrder → String
  | .none => "none"
  | .asc => "asc"
  | .desc => "desc"

/-- The order of addresses of a word. -/
def AddressOrdering.ofWord? : String → Option AddressOrdering
  | "legacy" => some .legacy
  | "numeric" => some .numeric
  | _ => none

/-- The word of an order of addresses. -/
def AddressOrdering.word : AddressOrdering → String
  | .legacy => "legacy"
  | .numeric => "numeric"

/-- The form of a word. -/
def OutputFormat.ofWord? : String → Option OutputFormat
  | "table" => some .table
  | "json" => some .json
  | _ => none

/-- The word of a form. -/
def OutputFormat.word : OutputFormat → String
  | .table => "table"
  | .json => "json"

namespace FieldSetting

/-- Reads one field. Only its name has no default. -/
def ofSetting (s : Setting) : Setting.Reading FieldSetting := do
  match ← s.members ["field", "aggr", "sort", "ipv4_prefix", "ipv6_prefix"] with
  | [some name, kind, sort, v4Bits, v6Bits] =>
    let name ← name.text
    let kind ← Setting.orDefault (Setting.choice Aggregation.ofWord?) .auto kind
    let sort ← Setting.orDefault (Setting.choice SortOrder.ofWord?) .none sort
    let v4Bits ← Setting.orDefault (Setting.natBelow 256) 0 v4Bits
    let v6Bits ← Setting.orDefault (Setting.natBelow 256) 0 v6Bits
    pure ⟨name, kind, sort, UInt8.ofNat v4Bits, UInt8.ofNat v6Bits⟩
  | _ => failure

end FieldSetting

namespace Config

/-- Reads a configuration. -/
def ofSetting (s : Setting) : Setting.Reading Config := do
  match ← s.members ["log_level", "shards", "workers", "nfdump_compat", "address_ordering",
    "limit", "output", "fields"] with
  | [logLevel, shards, workers, pairOnce, ordering, limit, output, fields] =>
    let count := Setting.natBelow UInt64.size
    let logLevel ← Setting.orDefault Setting.text "info" logLevel
    let shards ← Setting.orDefault count 16 shards
    let workers ← Setting.orDefault count 4 workers
    let pairOnce ← Setting.orDefault Setting.bool false pairOnce
    let ordering ← Setting.orDefault (Setting.choice AddressOrdering.ofWord?) .legacy ordering
    let limit ← Setting.orDefault count 0 limit
    let output ← Setting.orDefault (Setting.choice OutputFormat.ofWord?) .table output
    let fields ← Setting.orDefault Setting.items [] fields
    let fields ← fields.mapM FieldSetting.ofSetting
    pure ⟨logLevel, shards, workers, pairOnce, ordering, limit, output, fields⟩
  | _ => failure

/-- Reads a configuration from a tree of settings. -/
def ofSettings? (s : Settings) : Option Config := s.readAs? ofSetting

/-- Reads a configuration from a JSON value. -/
def ofJson? (value : Json) : Option Config := ofSettings? (.ofJson value)

/-- Checks the fields one after the other; `seen` are those in front. -/
def checkFields (seen : List FieldId) : List FieldSetting → Except ConfigError Unit
  | [] => .ok ()
  | f :: rest =>
    match FieldId.ofName? f.name with
    | none => .error (.unknownField f.name)
    | some field =>
      if field ∈ seen then .error (.listedTwice f.name)
      else if 32 < f.v4Bits then .error (.v4TooLong f.name f.v4Bits)
      else if 128 < f.v6Bits then .error (.v6TooLong f.name f.v6Bits)
      else checkFields (field :: seen) rest

/-- The names of the fields that order the results. -/
def sortedNames (c : Config) : List String :=
  (c.fields.filter fun f => decide (f.sort ≠ .none)).map (·.name)

/-- Checks a configuration. -/
def validate (c : Config) : Except ConfigError Unit :=
  if c.fields.isEmpty then .error .noFields
  else if c.shards = 0 then .error .noShards
  else if c.workers = 0 then .error .noWorkers
  else match checkFields [] c.fields with
    | .error e => .error e
    | .ok () =>
      if 1 < c.sortedNames.length then .error (.severalSorted c.sortedNames) else .ok ()

/-- Gives the fields their columns, up to the first that is refused. -/
def applyFields (a : Aggregator) : List FieldSetting → Aggregator × Except ConfigError Unit
  | [] => (a, .ok ())
  | f :: rest =>
    match FieldId.ofName? f.name with
    | none => (a, .error (.unknownField f.name))
    | some field =>
      match a.configure ⟨field, f.kind, f.sort, f.v4Bits, f.v6Bits⟩ with
      | (a, .ok ()) => applyFields a rest
      | (a, .error e) => (a, .error (.refused f.name e))

/-- Applies a configuration to an aggregation. The flags are set after the fields, so a
refused field leaves them as they were. -/
def apply (c : Config) (a : Aggregator) : Aggregator × Except ConfigError Unit :=
  match applyFields a c.fields with
  | (a, .ok ()) => ((a.setPairOnce c.pairOnce).setOrdering c.ordering, .ok ())
  | (a, .error e) => (a, .error e)

/-- An aggregation with the shards that the configuration asks for. -/
def newAggregator (c : Config) : Aggregator := .new c.shards TallyTable.polynomialSpread

end Config

end FlowTally
