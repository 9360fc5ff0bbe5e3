import FlowTally.Yaml.Node
import FlowTally.Yaml.Tokens

/-!
# Documents

A text holds one document. Directives may stand in front of it if its start is marked,
and its end may be marked any number of times. An empty text is a document in which
nothing is written.
-/

namespace FlowTally.Yaml

/-- What the directives at the front say and the tokens behind the mark that must follow
them. There is at most one version, which must be known, and one meaning of a handle. -/
def directives? (hasVersion : Bool) (handles : Handles) : List Token →
    Option (Handles × List Token)
  | .version major minor :: rest =>
    if hasVersion || major ≠ 1 || (minor ≠ 1 && minor ≠ 2) then none
    else directives? true handles rest
  | .tagHandle handle lead :: rest =>
    if (handles.lookup handle).isSome then none
    else directives? hasVersion (handles ++ [(handle, lead)]) rest
  | .documentStart :: rest => some (handles, rest)
  | _ => none

/-- Whether a token stands outside of all documents. -/
def isOutermost : Token → Bool
  | .version _ _ => true
  | .tagHandle _ _ => true
  | .documentStart => true
  | .documentEnd => true
  | _ => false

/-- The outermost node of a document and what has been read with it. Each token leads to
a few turns, for which eight times their number is enough. -/
def rootNode? (handles : Handles) (tokens : List Token) : Option (Setting × NodeReader) :=
  NodeReader.finish? (handles ++ Handles.known) (8 * tokens.length + 8)
    ⟨tokens, [], .node true false, .empty, 0⟩

/-- The outermost node where nothing is written. -/
def voidNode (rest : List Token) : Setting × NodeReader :=
  (void, ⟨rest, [], .put void, .empty, 1⟩)

/-- The outermost node of the first document and what has been read with it. A mark of an
end cannot stand in front of it. -/
def document? : List Token → Option (Setting × NodeReader)
  | [] => some (voidNode [])
  | .documentEnd :: _ => none
  | t :: rest =>
    if isOutermost t then
      match directives? false [] (t :: rest) with
      | none => none
      | some (handles, rest) =>
        if rest.head?.all isOutermost then some (voidNode rest) else rootNode? handles rest
    else rootNode? [] (t :: rest)

/-- The settings of a text. References may be followed a hundred times as often as there
are parts. -/
def read? (text : String) : Option Settings := do
  let tokens ← tokens? text.toList
  let (root, r) ← document? tokens
  if r.tokens.all (· = .documentEnd) then some ⟨root, r.anchors.shared, 100 * r.size⟩ else none

end FlowTally.Yaml
