import FlowTally.Yaml.Scalar

/-!
# Open collections

While a list or a table is being read it is a frame, which holds the parts so far and
knows what comes next. A part that is complete is put into the frame.
-/

namespace FlowTally.Yaml

/-- What an open collection is and holds, the newest part in front. -/
inductive Frame where
  /-- A block list. -/
  | items (done : List Setting)
  /-- A block list that stands as far left as the name it belongs to. -/
  | flushItems (done : List Setting)
  /-- A block table in which a name is next. -/
  | entries (done : List (Setting × Setting))
  /-- A block table in which a value is next. -/
  | entryValue (done : List (Setting × Setting)) (name : Setting)
  /-- A flow list. -/
  | flowItems (isFirst : Bool) (done : List Setting)
  /-- A flow list in which the name of a table of one entry is next. -/
  | pairName (done : List Setting)
  /-- A flow list in which the value of a table of one entry is next. -/
  | pairValue (done : List Setting) (name : Setting)
  /-- A flow table in which an entry is next; a name without a mark has no value. -/
  | flowEntries (isFirst : Bool) (done : List (Setting × Setting))
  /-- A flow table in which a name is next. -/
  | flowName (done : List (Setting × Setting))
  /-- A flow table in which a value is next. -/
  | flowValue (done : List (Setting × Setting)) (name : Setting)
deriving Repr

namespace Frame

/-- Puts a part into a collection. -/
def put (s : Setting) : Frame → Frame
  | .items done => .items (s :: done)
  | .flushItems done => .flushItems (s :: done)
  | .entries done => .entryValue done s
  | .entryValue done name => .entries ((name, s) :: done)
  | .flowItems _ done => .flowItems false (s :: done)
  | .pairName done => .pairValue done s
  | .pairValue done name => .flowItems false (.table none [(name, s)] :: done)
  | .flowEntries _ done => .flowEntries false ((s, void) :: done)
  | .flowName done => .flowValue done s
  | .flowValue done name => .flowEntries false ((name, s) :: done)

/-- How many parts are made beside the one that is put into a collection. -/
def added : Frame → Nat
  | .flowEntries _ _ => 1
  | _ => 0

/-- The list of items given newest first. -/
def listOf (done : List Setting) : Setting := .list false done.reverse

/-- The table of entries given newest first. -/
def tableOf (done : List (Setting × Setting)) : Setting := .table none done.reverse

end Frame

end FlowTally.Yaml
