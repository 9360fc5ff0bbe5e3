import FlowTally.Yaml.Block
import FlowTally.Yaml.Directive
import FlowTally.Yaml.Plain
import FlowTally.Yaml.Quoted
import FlowTally.Yaml.Scan

/-!
# The tokens of a text

Each step passes blanks and comments, ends the block collections that reach further
right than the place, and takes one token. Names may start behind a line break, a mark
of a flow collection, and the hyphen or question mark of a block one.
-/

namespace FlowTally.Yaml

namespace Scan

/-- Passes blanks, comments and line breaks. A tab is passed only where no name may start,
and inside flow collections. A byte order mark may start a line. -/
def skipBlanks (fuel : Nat) (s : Scan) : Scan :=
  match fuel with
  | 0 => s
  | fuel + 1 =>
    let p := s.place
    let p := if p.column = 0 && p.rest.head? = some '\ufeff' then p.skip 1 else p
    let passesTabs := s.inFlow || !s.allowsName
    let p := (p.skipWhile fun c => c = ' ' || (passesTabs && c = '\t')).skipComment
    if p.rest.head?.any isBreak then
      skipBlanks fuel { s with place := p.skipBreak, allowsName := s.allowsName || !s.inFlow }
    else { s with place := p }

/-- A line that marks the start or the end of a document or is a directive. It ends all
block collections. -/
def outermost? (s : Scan) (t : Token) (p : Place) : Option Scan :=
  (s.closeFrom 0).dropCandidate?.map fun s => { s.push t p with allowsName := false }

/-- The start of a flow collection, which can be a name. -/
def openFlow? (s : Scan) (t : Token) : Option Scan :=
  s.saveCandidate?.map fun s =>
    { s.push t (s.place.skip 1) with
      candidate := none, outer := s.candidate :: s.outer, allowsName := true }

/-- The end of a flow collection. -/
def closeFlow? (s : Scan) (t : Token) : Option Scan :=
  s.dropCandidate?.map fun s =>
    { s.push t (s.place.skip 1) with
      candidate := s.outer.head?.getD none, outer := s.outer.drop 1, allowsName := false }

/-- The comma of a flow collection. -/
def comma? (s : Scan) : Option Scan :=
  s.dropCandidate?.map fun s => { s.push .comma (s.place.skip 1) with allowsName := true }

/-- The hyphen of an item. -/
def item? (s : Scan) : Option Scan :=
  if s.inFlow || s.allowsName then
    (s.openBlock .blockList).dropCandidate?.map fun s =>
      { s.push .item (s.place.skip 1) with allowsName := true }
  else none

/-- The question mark of a name. -/
def key? (s : Scan) : Option Scan :=
  if s.inFlow || s.allowsName then
    (s.openBlock .blockTable).dropCandidate?.map fun s =>
      { s.push .key (s.place.skip 1) with allowsName := !s.inFlow }
  else none

/-- The colon of a value. What started at a candidate that reaches so far is a name, and a
block table starts there if none did. -/
def value? (s : Scan) : Option Scan :=
  let next := s.place.skip 1
  match s.candidate with
  | some c =>
    if c.reaches s.place then
      let column := c.place.column
      if s.opensAt column then
        let s := s.insert c.tokens [.key, .blockTable]
        some { s.push .value next with
          columns := column :: s.columns, candidate := none, allowsName := false }
      else
        some { (s.insert c.tokens [.key]).push .value next with
          candidate := none, allowsName := false }
    else if c.isRequired then none
    else lone { s with candidate := none }
  | none => lone s
where
  /-- The colon of a value without a name in front of it. -/
  lone (s : Scan) : Option Scan :=
    if s.inFlow || s.allowsName then
      let s := s.openBlock .blockTable
      some { s.push .value (s.place.skip 1) with allowsName := !s.inFlow }
    else none

/-- A reference or a name for what follows. -/
def name? (s : Scan) (token : List Char → Token) : Option Scan := do
  let s ← s.saveCandidate?
  let (name, p) ← anchorName? s.place
  some { s.push (token name) p with allowsName := false }

/-- The kind of what follows. -/
def kind? (fuel : Nat) (s : Scan) : Option Scan := do
  let s ← s.saveCandidate?
  let (handle, suffix, p) ← tag? s.inFlow fuel s.place
  some { s.push (.tag handle suffix) p with allowsName := false }

/-- A scalar between quotes. -/
def quotedScalar? (fuel : Nat) (s : Scan) : Option Scan := do
  let s ← s.saveCandidate?
  let (text, p) ← quoted? fuel s.place
  some { s.push (.scalar .quoted text) p with allowsName := false }

/-- A plain scalar. A name may start behind it if a line has ended. -/
def plainScalar? (fuel : Nat) (s : Scan) : Option Scan := do
  let s ← s.saveCandidate?
  let found ← plain? s.inFlow s.least fuel s.place
  some { s.push (.scalar .plain found.text) found.place with allowsName := found.isBroken }

/-- A block scalar. -/
def blockScalar? (fuel : Nat) (s : Scan) (style : Style) : Option Scan := do
  let s ← s.dropCandidate?
  let (text, p) ← block? (style = .folded) s.least fuel s.place
  some { s.push (.scalar style text) p with allowsName := true }

/-- The token that starts with a character, in front of `rest`. -/
def token? (fuel : Nat) (s : Scan) (c : Char) (rest : List Char) : Option Scan :=
  if s.place.column = 0 && c = '%' then
    (directive? fuel s.place).bind fun (t, p) => s.outermost? t p
  else if s.place.isMarker then
    s.outermost? (if c = '-' then .documentStart else .documentEnd) (s.place.skip 3)
  else if c = '[' then s.openFlow? .flowList
  else if c = '\x7b' then s.openFlow? .flowTable
  else if c = ']' then s.closeFlow? .flowListEnd
  else if c = '\x7d' then s.closeFlow? .flowTableEnd
  else if c = ',' then s.comma?
  else if c = '-' && atBlank rest then s.item?
  else if c = '?' && (s.inFlow || atBlank rest) then s.key?
  else if c = ':' && (s.inFlow || atBlank rest) then s.value?
  else if c = '*' then s.name? .alias
  else if c = '&' then s.name? .anchor
  else if c = '!' then s.kind? fuel
  else if c = '|' && !s.inFlow then s.blockScalar? fuel .literal
  else if c = '>' && !s.inFlow then s.blockScalar? fuel .folded
  else if c = '\'' || c = '"' then s.quotedScalar? fuel
  else if startsPlain c || c = '-' || c = '?' || c = ':' then s.plainScalar? fuel
  else none

/-- All tokens from a scan on. Each step takes a character at least. -/
def all? (fuel steps : Nat) (s : Scan) : Option (List Token) :=
  match steps with
  | 0 => none
  | steps + 1 =>
    let s := s.skipBlanks fuel
    let s := s.closeFrom (s.place.column + 1)
    match s.place.rest with
    | [] => (s.closeFrom 0).dropCandidate?.map (·.tokens.reverse)
    | c :: rest =>
      match s.token? fuel c rest with
      | none => none
      | some s => all? fuel steps s

end Scan

/-- The tokens of a text. -/
def tokens? (cs : List Char) : Option (List Token) :=
  let fuel := cs.length + 1
  if cs.all isAllowed then (Scan.start (.start cs)).all? fuel fuel else none

end FlowTally.Yaml
