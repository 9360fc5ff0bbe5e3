import FlowTally.CommandLine

/-!
# The program

Reads the files that the arguments name, runs, and writes what the run says.
-/

open FlowTally

/-- Why a file cannot be opened or read. -/
def reasonOf : IO.Error → String
  | .noFileOrDirectory .. => "No such file or directory (os error 2)"
  | .permissionDenied .. => "Permission denied (os error 13)"
  | .inappropriateType .. => "Is a directory (os error 21)"
  | e => toString e

/-- What an open file gives. -/
def readAll (file : IO.FS.Handle) : IO FileContent := do
  try
    let bytes ← file.readBinToEnd
    pure (.bytes bytes)
  catch e => pure (.unreadable (reasonOf e))

/-- What a file gives. -/
def readFile (name : String) : IO FileContent := do
  try
    let file ← IO.FS.Handle.mk name .read
    readAll file
  catch e => pure (.unopened (reasonOf e))

def main (args : List String) : IO UInt32 := do
  let names := match CommandLine.request? args with
    | some (.run (some config) _ inputs) => config :: inputs
    | _ => []
  let contents ← names.mapM fun name => do
    let content ← readFile name
    pure (name, content)
  let files (name : String) : FileContent := (contents.lookup name).getD .missing
  let stdin ← if names.length = 1 then do
      let stream ← IO.getStdin
      stream.readBinToEnd
    else pure ByteArray.empty
  let outcome := CommandLine.run args files stdin
  IO.print outcome.stdout
  match outcome.error with
  | some e => IO.eprintln ("Error: " ++ e)
  | none => pure ()
  pure (UInt32.ofNat outcome.exit)
