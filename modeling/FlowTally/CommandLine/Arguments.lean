import FlowTally.CommandLine.Help

/-!
# Arguments

Options name the configuration file and the log level; all other arguments name inputs.
Two hyphens end the options. In front of all arguments the word `version` asks for the
version instead, and `help` for help on the program or a command.
-/

namespace FlowTally.CommandLine

/-- What the arguments ask for. -/
inductive Request where
  /-- The version. -/
  | version
  /-- Help. -/
  | help (topic : HelpTopic)
  /-- A run. -/
  | run (config : Option String) (logLevel : Option String) (inputs : List String)
deriving DecidableEq, Repr

/-- The arguments seen so far. -/
structure Arguments where
  /-- The configuration file. -/
  config : Option String
  /-- The log level. -/
  logLevel : Option String
  /-- The inputs. -/
  inputs : List String
deriving DecidableEq, Repr

/-- An option. -/
inductive CommandOption where
  /-- Help is wanted. -/
  | help
  /-- The configuration file. -/
  | config
  /-- The log level. -/
  | logLevel
deriving DecidableEq, Repr

namespace Arguments

/-- No argument. -/
def none : Arguments := ⟨.none, .none, []⟩

/-- Sets the configuration file, which has a name and may be given only once. -/
def setConfig? (a : Arguments) (value : String) : Option Arguments :=
  if a.config.isSome || value.isEmpty then .none else some { a with config := some value }

/-- Sets the log level, which may be given only once. -/
def setLogLevel? (a : Arguments) (value : String) : Option Arguments :=
  if a.logLevel.isSome then .none else some { a with logLevel := some value }

/-- Adds an input, which has a name. -/
def addInput? (a : Arguments) (input : String) : Option Arguments :=
  if input.isEmpty then .none else some { a with inputs := a.inputs ++ [input] }

/-- A run with these arguments. -/
def request (a : Arguments) : Request := .run a.config a.logLevel a.inputs

end Arguments

/-- An argument that starts with a hyphen: the option and the value written with it. -/
def optionOf? (arg : List Char) : Option (CommandOption × Option String) :=
  match arg with
  | '-' :: '-' :: name =>
    let word := String.ofList (name.takeWhile (· ≠ '='))
    let value := match name.dropWhile (· ≠ '=') with
      | [] => none
      | _ :: value => some (String.ofList value)
    if word = "config" then some (.config, value)
    else if word = "log-level" then some (.logLevel, value)
    else if word = "help" ∧ value = none then some (.help, none)
    else none
  | '-' :: 'h' :: _ => some (.help, none)
  | '-' :: 'c' :: [] => some (.config, none)
  | '-' :: 'c' :: '=' :: value => some (.config, some (String.ofList value))
  | '-' :: 'c' :: value => some (.config, some (String.ofList value))
  | _ => none

/-- Whether an argument can be the value of the option in front of it. -/
def isValue (arg : List Char) : Bool :=
  match arg with
  | '-' :: _ :: _ => false
  | _ => true

/-- Takes the arguments one after the other. -/
def collect? (a : Arguments) : List String → Option Request
  | [] => some a.request
  | arg :: rest =>
    let cs := arg.toList
    if isValue cs then
      match a.addInput? arg with
      | some a => collect? a rest
      | none => none
    else if arg = "--" then (rest.foldlM Arguments.addInput? a).map Arguments.request
    else match optionOf? cs with
      | none => none
      | some (.help, _) => some (.help .program)
      | some (option, written) =>
        let set? := if option = .config then a.setConfig? else a.setLogLevel?
        match written, rest with
        | some value, rest =>
          match set? value with
          | some a => collect? a rest
          | none => none
        | none, value :: rest =>
          if isValue value.toList then
            match set? value with
            | some a => collect? a rest
            | none => none
          else none
        | none, [] => none

/-- What the arguments behind the word `version` ask for. -/
def versionRequest? : List String → Option Request
  | [] => some .version
  | ["--"] => some .version
  | arg :: _ =>
    match optionOf? arg.toList with
    | some (.help, _) => some (.help .version)
    | _ => none

/-- What the arguments behind the word `help` ask for. -/
def helpRequest? : List String → Option Request
  | [] => some (.help .program)
  | ["version"] => some (.help .version)
  | ["help"] => some (.help .help)
  | _ => none

/-- What the arguments ask for, if they are well formed. -/
def request? : List String → Option Request
  | "version" :: rest => versionRequest? rest
  | "help" :: rest => helpRequest? rest
  | args => collect? .none args

end FlowTally.CommandLine
