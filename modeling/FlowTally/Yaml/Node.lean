import FlowTally.Yaml.Anchors
import FlowTally.Yaml.Frame

/-!
# Nodes

A node is a scalar, a list, a table or an alias. The tokens of a node are taken one
after the other; the collections that are still open stand on a stack. Where a node may
be missing, nothing is written.
-/

namespace FlowTally.Yaml

/-- What is to be done next. -/
inductive Turn where
  /-- To take a node. Inside a flow collection it cannot be a block one, and a list that
  stands as far left as a name is possible only in an entry. -/
  | node (isBlock allowsFlush : Bool)
  /-- To put a node into the innermost open collection. -/
  | put (s : Setting)
  /-- To go on with the innermost open collection. -/
  | goOn
deriving Repr

/-- A reader of nodes. -/
structure NodeReader where
  /-- The tokens left. -/
  tokens : List Token
  /-- The open collections, the innermost in front, each with its place among the named
  nodes if it has a name. -/
  frames : List (Option Nat × Frame)
  /-- What is to be done next. -/
  turn : Turn
  /-- The anchors. -/
  anchors : Anchors
  /-- The number of parts: one for a scalar or an alias, two for a collection. -/
  size : Nat
deriving Repr

/-- What the handles of tags stand for. -/
abbrev Handles := List (List Char × List UInt8)

/-- The handles that need no directive. -/
def Handles.known : Handles :=
  [(['!'], [0x21]), (['!', '!'], tagOf "tag:yaml.org,2002:")]

/-- What stands in front of a node. -/
structure Properties where
  /-- Its name. -/
  anchor : Option (List Char)
  /-- Its tag. -/
  tag : Option (List UInt8)
deriving Repr

namespace Properties

/-- A tag in full. Its handle must be known. -/
def fullTag? (handles : Handles) (handle : List Char) (suffix : List UInt8) :
    Option (List UInt8) :=
  if handle.isEmpty then some suffix else (handles.lookup handle).map (· ++ suffix)

/-- The properties in front of a node, in either order, and the tokens behind them. -/
def ofTokens? (handles : Handles) : List Token → Option (Properties × List Token)
  | .anchor name :: .tag handle suffix :: rest =>
    (fullTag? handles handle suffix).map fun tag => (⟨some name, some tag⟩, rest)
  | .tag handle suffix :: .anchor name :: rest =>
    (fullTag? handles handle suffix).map fun tag => (⟨some name, some tag⟩, rest)
  | .anchor name :: rest => some (⟨some name, none⟩, rest)
  | .tag handle suffix :: rest =>
    (fullTag? handles handle suffix).map fun tag => (⟨none, some tag⟩, rest)
  | rest => some (⟨none, none⟩, rest)

end Properties

namespace NodeReader

/-- Goes on behind a complete node that is one part. -/
def complete (r : NodeReader) (place : Option Nat) (s : Setting) (rest : List Token) :
    NodeReader :=
  { r with tokens := rest, turn := .put s, anchors := r.anchors.complete place s
           size := r.size + 1 }

/-- Goes on inside a collection. -/
def enter (r : NodeReader) (place : Option Nat) (f : Frame) (rest : List Token) : NodeReader :=
  { r with tokens := rest, frames := (place, f) :: r.frames, turn := .goOn, size := r.size + 2 }

/-- Goes on behind the innermost collection. -/
def leave (r : NodeReader) (place : Option Nat) (s : Setting) (rest : List Token) : NodeReader :=
  { r with tokens := rest, frames := r.frames.drop 1, turn := .put s
           anchors := r.anchors.complete place s }

/-- Goes on in front of a part, or behind it if it is missing because one of `ends`
follows. -/
def part (r : NodeReader) (isBlock allowsFlush : Bool) (ends rest : List Token) : NodeReader :=
  if rest.head?.any (· ∈ ends) then r.complete none void rest
  else { r with tokens := rest, turn := .node isBlock allowsFlush }

/-- Takes a node. Behind a name or a tag nothing else need be written. -/
def node? (handles : Handles) (isBlock allowsFlush : Bool) (r : NodeReader) :
    Option NodeReader :=
  match r.tokens with
  | .alias name :: rest =>
    (r.anchors.number? name).map fun number => r.complete none (.reference number) rest
  | tokens => do
    let (properties, rest) ← Properties.ofTokens? handles tokens
    let (anchors, place) := match properties.anchor with
      | none => (r.anchors, none)
      | some name =>
        let (anchors, place) := r.anchors.name name
        (anchors, some place)
    let r := { r with anchors }
    let alone : Option NodeReader :=
      if place.isNone && properties.tag.isNone then none
      else some (r.complete place (scalarSetting .plain properties.tag []) rest)
    match rest with
    | .scalar style text :: behind =>
      some (r.complete place (scalarSetting style properties.tag text) behind)
    | .flowList :: inside => some (r.enter place (.flowItems true []) inside)
    | .flowTable :: inside => some (r.enter place (.flowEntries true []) inside)
    | .blockList :: inside => if isBlock then some (r.enter place (.items []) inside) else alone
    | .blockTable :: inside =>
      if isBlock then some (r.enter place (.entries []) inside) else alone
    | .item :: _ => if allowsFlush then some (r.enter place (.flushItems []) rest) else alone
    | _ => alone

/-- The tokens of the next part of a flow collection: all parts but the first have a comma
in front. -/
def behindComma? (isFirst : Bool) : List Token → Option (List Token)
  | .comma :: rest => some (if isFirst then .comma :: rest else rest)
  | rest => if isFirst then some rest else none

/-- Goes on with a collection that holds parts already. -/
def goOn? (r : NodeReader) : Option NodeReader :=
  match r.frames with
  | [] => none
  | (place, f) :: frames =>
    match f, r.tokens with
    | .items _, .item :: rest => some (r.part true false [.item, .blockEnd] rest)
    | .items done, .blockEnd :: rest => some (r.leave place (Frame.listOf done) rest)
    | .flushItems _, .item :: rest =>
      some (r.part true false [.item, .key, .value, .blockEnd] rest)
    | .flushItems done, rest => some (r.leave place (Frame.listOf done) rest)
    | .entries _, .key :: rest => some (r.part true true [.key, .value, .blockEnd] rest)
    | .entries done, .blockEnd :: rest => some (r.leave place (Frame.tableOf done) rest)
    | .entryValue _ _, .value :: rest =>
      some (r.part true true [.key, .value, .blockEnd] rest)
    | .entryValue _ _, rest => some (r.complete none void rest)
    | .flowItems _ done, .flowListEnd :: rest => some (r.leave place (Frame.listOf done) rest)
    | .flowItems isFirst done, tokens =>
      match behindComma? isFirst tokens with
      | none => none
      | some (.flowListEnd :: rest) => some (r.leave place (Frame.listOf done) rest)
      | some (.key :: rest) =>
        let r := { r with frames := (place, .pairName done) :: frames, size := r.size + 2 }
        -- A name that is missing takes the mark behind it along.
        if rest.head?.any (· ∈ [.value, .comma, .flowListEnd]) then
          some (r.complete none void (rest.drop 1))
        else some { r with tokens := rest, turn := .node false false }
      | some rest => some { r with tokens := rest, turn := .node false false }
    | .pairValue _ _, .value :: rest => some (r.part false false [.comma, .flowListEnd] rest)
    | .pairValue _ _, rest => some (r.complete none void rest)
    | .flowEntries _ done, .flowTableEnd :: rest => some (r.leave place (Frame.tableOf done) rest)
    | .flowEntries isFirst done, tokens =>
      match behindComma? isFirst tokens with
      | none => none
      | some (.flowTableEnd :: rest) => some (r.leave place (Frame.tableOf done) rest)
      | some (.key :: rest) =>
        let r := { r with frames := (place, .flowName done) :: frames }
        some (r.part false false [.value, .comma, .flowTableEnd] rest)
      | some rest => some { r with tokens := rest, turn := .node false false }
    | .flowValue _ _, .value :: rest => some (r.part false false [.comma, .flowTableEnd] rest)
    | .flowValue _ _, rest => some (r.complete none void rest)
    | _, _ => none

/-- Reads to the end of the node, which is what is put where no collection is open. Each
token leads to a few turns. -/
def finish? (handles : Handles) (fuel : Nat) (r : NodeReader) : Option (Setting × NodeReader) :=
  match fuel with
  | 0 => none
  | fuel + 1 =>
    match r.turn, r.frames with
    | .put s, [] => some (s, r)
    | .put s, (place, f) :: frames =>
      finish? handles fuel { r with frames := (place, f.put s) :: frames, turn := .goOn
                                    size := r.size + f.added }
    | .node isBlock allowsFlush, _ =>
      match r.node? handles isBlock allowsFlush with
      | none => none
      | some r => finish? handles fuel r
    | .goOn, _ =>
      match r.goOn? with
      | none => none
      | some r => finish? handles fuel r

end NodeReader

end FlowTally.Yaml
