import FlowTally.Yaml.Blanks

/-!
# Plain scalars

A plain scalar has no quotes. It is made of words with blanks between them and ends in
front of a colon that separates, of a comment, of the marks of a flow collection around
it, or where a line starts too far left.
-/

namespace FlowTally.Yaml

/-- Whether a character marks a flow collection. -/
def isFlowMark (c : Char) : Bool :=
  c = ',' || c = '[' || c = ']' || c = '\x7b' || c = '\x7d'

/-- Whether a plain scalar can start with a character whatever follows it. -/
def startsPlain (c : Char) : Bool :=
  !isBlank c && !isFlowMark c && c ∉ ['-', '?', ':', '#', '&', '*', '!', '|', '>', '\'', '"', '%',
    '@', '\x60']

/-- Whether a word of a plain scalar ends here. -/
def endsWord (inFlow : Bool) : List Char → Bool
  | [] => true
  | c :: rest => isBlank c || (c = ':' && atBlank rest) || (inFlow && isFlowMark c)

/-- Whether a colon is glued to a mark of a flow collection. -/
def isGluedColon : List Char → Bool
  | ':' :: c :: _ => isFlowMark c || c = '?'
  | _ => false

/-- A word, behind the characters `word` of it; both are written backwards. In a flow
collection no colon in it may be glued to a mark. -/
def plainWord? (inFlow : Bool) (word : List Char) : List Char → Option (List Char)
  | [] => some word
  | c :: rest =>
    if inFlow && isGluedColon (c :: rest) then none
    else if endsWord inFlow (c :: rest) then some word
    else plainWord? inFlow (c :: word) rest

/-- What a scan of a plain scalar has found. -/
structure PlainScan where
  /-- The characters. -/
  text : List Char
  /-- The place behind. -/
  place : Place
  /-- Whether a line break has been passed behind the last word. -/
  isBroken : Bool

/-- The rest of a plain scalar, behind the characters `text` written backwards and the
blanks that were passed. Lines go on from the column `least`; in a flow collection any
column will do. Each step takes a word or blanks. -/
def plainRest? (inFlow : Bool) (least fuel : Nat) (text gaps breaks : List Char) (p : Place) :
    Option PlainScan :=
  match fuel with
  | 0 => none
  | fuel + 1 =>
    let stop (text breaks : List Char) (p : Place) : Option PlainScan :=
      some ⟨text.reverse, p, !breaks.isEmpty⟩
    if p.isMarker || p.rest.head? = some '#' then stop text breaks p
    else match plainWord? inFlow [] p.rest with
      | none => none
      | some [] => stop text breaks p
      | some word =>
        let text := word ++ ((folded gaps breaks).reverse ++ text)
        let p := p.behind word
        let gaps := p.front isGap
        match passBreaks? least fuel [] (p.behind gaps) with
        | none => none
        | some (breaks, next) =>
          if gaps.isEmpty && breaks.isEmpty then stop text [] p
          else if !inFlow && next.column < least then stop text breaks next
          else plainRest? inFlow least fuel text gaps breaks next

/-- A plain scalar. -/
def plain? (inFlow : Bool) (least fuel : Nat) (p : Place) : Option PlainScan :=
  plainRest? inFlow least fuel [] [] [] p

end FlowTally.Yaml
