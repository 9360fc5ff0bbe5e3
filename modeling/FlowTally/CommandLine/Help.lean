/-!
# Help

What the program and each of its commands do, and with which arguments.
-/

namespace FlowTally.CommandLine

/-- What help can be asked for. -/
inductive HelpTopic where
  /-- The program. -/
  | program
  /-- The command that names the version. -/
  | version
  /-- The command that gives help. -/
  | help
deriving DecidableEq, Repr

/-- The help on a topic, line by line. -/
def HelpTopic.lines : HelpTopic → List String
  | .program =>
    ["Group, merge and rank network flow records in memory",
      "",
      "Usage: flowstat [OPTIONS] [INPUTS]...",
      "       flowstat <COMMAND>",
      "",
      "Commands:",
      "  version  Print version information and exit",
      "  help     Print this message or the help of the given subcommand(s)",
      "",
      "Arguments:",
      "  [INPUTS]...  Line-delimited JSON flow files. Reads stdin when none are given",
      "",
      "Options:",
      "  -c, --config <CONFIG>        Path to the YAML configuration file",
      "      --log-level <LOG_LEVEL>  " ++
        "Logging verbosity level (trace, debug, info, warn, error). Overrides the config file",
      "  -h, --help                   Print help"]
  | .version =>
    ["Print version information and exit",
      "",
      "Usage: flowstat version",
      "",
      "Options:",
      "  -h, --help  Print help"]
  | .help =>
    ["Print this message or the help of the given subcommand(s)",
      "",
      "Usage: flowstat help [COMMAND]...",
      "",
      "Arguments:",
      "  [COMMAND]...  Print help for the subcommand(s)"]

/-- The help on a topic. -/
def HelpTopic.text (t : HelpTopic) : String := String.join (t.lines.map (· ++ "\n"))

end FlowTally.CommandLine
