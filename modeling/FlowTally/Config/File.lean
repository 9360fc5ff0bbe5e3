import FlowTally.Config.Basic
import FlowTally.FileContent
import FlowTally.Yaml.Document

/-!
# Configuration files

A configuration file is read, parsed and checked; each step has an error of its own.
-/

namespace FlowTally

/-- Why a configuration file gives no configuration. -/
inductive LoadError where
  /-- The file cannot be read. -/
  | unreadable (file reason : String)
  /-- The text is no configuration. -/
  | unparsable (file : String)
  /-- The configuration is refused. -/
  | refused (cause : ConfigError)
deriving DecidableEq, Repr

/-- The wording of a loading error, from the outermost to the innermost cause. -/
def LoadError.causes : LoadError → List String
  | .unreadable file reason => ["reading config file " ++ file, reason]
  | .unparsable file => ["parsing config file " ++ file]
  | .refused cause => cause.causes

namespace Config

/-- Reads a configuration from a text. -/
def ofText? (text : String) : Option Config := (Yaml.read? text).bind ofSettings?

/-- Loads a configuration from the bytes of a file. -/
def ofBytes (file : String) (bytes : ByteArray) : Except LoadError Config :=
  match String.fromUTF8? bytes with
  | none => .error (.unreadable file "stream did not contain valid UTF-8")
  | some text =>
    match ofText? text with
    | none => .error (.unparsable file)
    | some c =>
      match c.validate with
      | .error e => .error (.refused e)
      | .ok () => .ok c

/-- Loads a configuration file. -/
def load (file : String) (content : FileContent) : Except LoadError Config :=
  match content with
  | .unopened reason => .error (.unreadable file reason)
  | .unreadable reason => .error (.unreadable file reason)
  | .bytes bytes => ofBytes file bytes

end Config

end FlowTally
