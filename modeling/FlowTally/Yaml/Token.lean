/-!
# Tokens

A text is a list of tokens: scalars, marks, and the starts and ends of collections. Where
a block collection starts or ends is shown by indentation alone and has a token of its
own all the same, and so has the name of an entry, before which nothing need be written.
-/

namespace FlowTally.Yaml

/-- How a scalar is written. -/
inductive Style where
  /-- Without quotes. -/
  | plain
  /-- Between quotes. -/
  | quoted
  /-- As lines that are kept. -/
  | literal
  /-- As lines that are joined. -/
  | folded
deriving DecidableEq, Repr

/-- A token. -/
inductive Token where
  /-- A directive that names a version. -/
  | version (major minor : Nat)
  /-- A directive that says what the handle of a tag stands for. -/
  | tagHandle (handle : List Char) (lead : List UInt8)
  /-- The start of a document. -/
  | documentStart
  /-- The end of a document. -/
  | documentEnd
  /-- The start of a block list. -/
  | blockList
  /-- The start of a block table. -/
  | blockTable
  /-- The end of a block list or table. -/
  | blockEnd
  /-- The start of a flow list. -/
  | flowList
  /-- The end of a flow list. -/
  | flowListEnd
  /-- The start of a flow table. -/
  | flowTable
  /-- The end of a flow table. -/
  | flowTableEnd
  /-- The hyphen of an item. -/
  | item
  /-- The comma between parts of a flow collection. -/
  | comma
  /-- A name follows. -/
  | key
  /-- The colon in front of a value. -/
  | value
  /-- A reference to what an anchor names. -/
  | alias (name : List Char)
  /-- A name for what follows. -/
  | anchor (name : List Char)
  /-- The kind of what follows: a handle, which may be empty, and the rest. -/
  | tag (handle : List Char) (suffix : List UInt8)
  /-- A scalar. -/
  | scalar (style : Style) (text : List Char)
deriving DecidableEq, Repr

end FlowTally.Yaml
