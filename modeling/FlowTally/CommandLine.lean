import FlowTally.Aggregator.Ingest
import FlowTally.CommandLine.Arguments
import FlowTally.Config.File
import FlowTally.LogFilter

/-!
# The command line

A run loads a configuration, feeds the inputs into an aggregation, and writes the
results; without inputs it reads the standard input. It is a function of the arguments
and the files.
-/

namespace FlowTally.CommandLine

/-- How a run ends. -/
structure Outcome where
  /-- The exit status. -/
  exit : Nat
  /-- The standard output. -/
  stdout : String
  /-- The first line of the report of a failure, which starts with the outermost cause. -/
  error : Option String
deriving DecidableEq, Repr

namespace Outcome

/-- A run that writes a text. -/
def success (stdout : String) : Outcome := ⟨0, stdout, none⟩

/-- The first line of a report. A carriage return in front of its end is no part of it. -/
def headline (report : String) : String :=
  let line := report.toList.takeWhile (· ≠ '\n')
  String.ofList (if line.getLast? = some '\r' then line.dropLast else line)

/-- A run that fails. -/
def failure (causes : List String) : Outcome := ⟨1, "", causes.head?.map headline⟩

/-- A run that breaks off. -/
def aborted : Outcome := ⟨101, "", none⟩

/-- A run whose arguments are not understood. -/
def misused : Outcome := ⟨2, "", none⟩

end Outcome

/-- The line that names the version. -/
def versionLine : String := "flowstat 0.1.0 (commit: unknown, linux/x86_64)\n"

/-- Feeds the inputs into an aggregation and writes the results. -/
def aggregate (c : Config) (files : String → FileContent) (stdin : ByteArray)
    (inputs : List String) : Outcome :=
  match c.apply c.newAggregator with
  | (_, .error e) => .failure e.causes
  | (a, .ok ()) =>
    let (a, summary) :=
      if inputs.isEmpty then a.ingest "stdin" stdin
      else a.ingestSources c.workers (inputs.map fun name => ⟨name, files name⟩)
    match summary with
    | .error e => .failure e.causes
    | .ok _ =>
      match a.report c.output c.limit with
      | (_, .error e) => .failure e.causes
      | (_, .ok r) => .success r.text

/-- A run with the given arguments. -/
def run (args : List String) (files : String → FileContent) (stdin : ByteArray) : Outcome :=
  match request? args with
  | none => .misused
  | some .version => .success versionLine
  | some (.help topic) => .success topic.text
  | some (.run none _ _) => .failure ["--config is required (use --help for usage)"]
  | some (.run (some file) logLevel inputs) =>
    match Config.load file (files file) with
    | .error _ => .failure ["loading config from " ++ file]
    | .ok c =>
      let level := logLevel.getD c.logLevel
      match LogFilter.check level with
      | .ok () => aggregate c files stdin inputs
      | .error .malformed => .failure ["invalid log level: " ++ level]
      | .error .splitsCharacter => .aborted

end FlowTally.CommandLine
