/-!
# Contents of files

What can be got from a file: its bytes, or the reason why it cannot be opened, or why it
can be opened but not read.
-/

namespace FlowTally

/-- What a file gives. -/
inductive FileContent where
  /-- The file cannot be opened. -/
  | unopened (reason : String)
  /-- The file can be opened but not read, such as a directory. -/
  | unreadable (reason : String)
  /-- The bytes of the file. -/
  | bytes (content : ByteArray)

namespace FileContent

/-- A file that does not exist. -/
def missing : FileContent := .unopened "No such file or directory (os error 2)"

/-- A directory. -/
def directory : FileContent := .unreadable "Is a directory (os error 21)"

end FileContent

end FlowTally
