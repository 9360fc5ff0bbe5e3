import FlowTally.Aggregator.Basic
import FlowTally.FileContent
import FlowTally.Record.Line
import FlowTally.Text.Lines

/-!
# Feeding inputs into an aggregation

Every line of an input that is not blank should be a record. A line that is none,
or whose record is refused, is counted and skipped; only bytes that are not UTF-8
end an input. Files are taken in their order by a number of workers, and a file
that fails takes the worker that reads it out.
-/

namespace FlowTally

/-- What an input brought. -/
structure IngestSummary where
  /-- Files that were read to their end. -/
  files : Nat
  /-- Lines that are not blank. -/
  lines : Nat
  /-- Lines whose record was written. -/
  records : Nat
  /-- Lines that are no record, or whose record was refused. -/
  skipped : Nat
deriving DecidableEq, Repr

namespace IngestSummary

/-- Nothing was read. -/
def zero : IngestSummary := ⟨0, 0, 0, 0⟩

/-- What two inputs brought together. -/
def add (a b : IngestSummary) : IngestSummary :=
  ⟨a.files + b.files, a.lines + b.lines, a.records + b.records, a.skipped + b.skipped⟩

/-- Counts a line whose record was written. -/
def countRecord (s : IngestSummary) : IngestSummary :=
  { s with lines := s.lines + 1, records := s.records + 1 }

/-- Counts a line that was skipped. -/
def countSkipped (s : IngestSummary) : IngestSummary :=
  { s with lines := s.lines + 1, skipped := s.skipped + 1 }

end IngestSummary

/-- An input with its name. -/
structure Source where
  /-- The name of the input. -/
  name : String
  /-- What it gives. -/
  content : FileContent

/-- Why an input was not read to its end. -/
inductive IngestError where
  /-- A line is not UTF-8. -/
  | undecodable (source : String)
  /-- The input cannot be opened. -/
  | unopened (source reason : String)
  /-- The input can be opened but not read. -/
  | unreadable (source reason : String)
deriving DecidableEq, Repr

/-- The wording of an input error, from the outermost to the innermost cause. -/
def IngestError.causes : IngestError → List String
  | .undecodable source => ["reading " ++ source, "stream did not contain valid UTF-8"]
  | .unopened source reason => ["opening input " ++ source, reason]
  | .unreadable source reason => ["reading " ++ source, reason]

namespace Aggregator

/-- Takes one line that is not blank. -/
def ingestRecord (a : Aggregator) (s : IngestSummary) (line : String) :
    Aggregator × IngestSummary :=
  match Record.ofLine line with
  | .error _ => (a, s.countSkipped)
  | .ok r =>
    match a.write r with
    | (a, .ok ()) => (a, s.countRecord)
    | (a, .error _) => (a, s.countSkipped)

/-- Takes one line; a blank one leaves no trace. -/
def ingestLine (a : Aggregator) (s : IngestSummary) (line : String) :
    Aggregator × IngestSummary :=
  match Text.trim line.toList with
  | [] => (a, s)
  | cs => a.ingestRecord s (String.ofList cs)

/-- Takes lines up to the first that could not be decoded. -/
def ingestLines (a : Aggregator) (source : String) (s : IngestSummary) :
    List (Option String) → Aggregator × Except IngestError IngestSummary
  | [] => (a, .ok s)
  | none :: _ => (a, .error (.undecodable source))
  | some line :: rest =>
    let (a, s) := a.ingestLine s line
    ingestLines a source s rest

/-- Takes an input. -/
def ingest (a : Aggregator) (source : String) (input : ByteArray) :
    Aggregator × Except IngestError IngestSummary :=
  a.ingestLines source .zero (Text.inputLines input)

/-- Takes a file, which counts as one. -/
def ingestSource (a : Aggregator) (source : Source) :
    Aggregator × Except IngestError IngestSummary :=
  match source.content with
  | .unopened reason => (a, .error (.unopened source.name reason))
  | .unreadable reason => (a, .error (.unreadable source.name reason))
  | .bytes input =>
    match a.ingest source.name input with
    | (a, .ok s) => (a, .ok { s with files := 1 })
    | (a, .error e) => (a, .error e)

/-- Takes files while a worker is left. The first failure is the answer. -/
def ingestWith (a : Aggregator) (workers : Nat) (s : IngestSummary)
    (failure : Option IngestError) : List Source → Aggregator × Except IngestError IngestSummary
  | [] => (a, match failure with | none => .ok s | some e => .error e)
  | source :: rest =>
    match workers, failure with
    | 0, some e => (a, .error e)
    | workers, failure =>
      match a.ingestSource source with
      | (a, .ok more) => ingestWith a workers (s.add more) failure rest
      | (a, .error e) => ingestWith a (workers - 1) s (failure.or (some e)) rest

/-- Takes files with a number of workers, at least one and at most one per file. -/
def ingestSources (a : Aggregator) (workers : Nat) (sources : List Source) :
    Aggregator × Except IngestError IngestSummary :=
  a.ingestWith (max 1 (min workers sources.length)) .zero none sources

end Aggregator

end FlowTally
