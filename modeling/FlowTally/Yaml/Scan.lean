import FlowTally.Yaml.Place
import FlowTally.Yaml.Token

/-!
# Scans

What a reader of tokens knows at a place: the tokens so far, the columns of the block
collections around it, and where a name of an entry may have started. That something is
a name shows only at the colon behind it; its token is then put in front of it.
-/

namespace FlowTally.Yaml

/-- Where a name may have started. -/
structure Candidate where
  /-- Whether nothing but a name can stand there. -/
  isRequired : Bool
  /-- The number of tokens in front of it. -/
  tokens : Nat
  /-- The place. -/
  place : Place
deriving Repr

/-- Whether a name that started at a candidate can end at a place: on the same line and
within 1024 bytes. -/
def Candidate.reaches (c : Candidate) (p : Place) : Bool :=
  c.place.line = p.line && p.offset ≤ c.place.offset + 1024

/-- A scan. -/
structure Scan where
  /-- The place. -/
  place : Place
  /-- The tokens, the newest in front. -/
  tokens : List Token
  /-- The number of tokens. -/
  count : Nat
  /-- The columns of the open block collections, the innermost in front. -/
  columns : List Nat
  /-- Where a name may have started in the innermost collection. -/
  candidate : Option Candidate
  /-- The same for what is around each open flow collection, the innermost in front. -/
  outer : List (Option Candidate)
  /-- Whether a name may start at the place. -/
  allowsName : Bool
deriving Repr

namespace Scan

/-- A scan that starts at a place. -/
def start (p : Place) : Scan := ⟨p, [], 0, [], none, [], true⟩

/-- Whether a flow collection is open. -/
def inFlow (s : Scan) : Bool := !s.outer.isEmpty

/-- The first column inside the innermost block collection. -/
def least (s : Scan) : Nat :=
  match s.columns with
  | [] => 0
  | column :: _ => column + 1

/-- Adds a token and goes on at a place. -/
def push (t : Token) (p : Place) (s : Scan) : Scan :=
  { s with place := p, tokens := t :: s.tokens, count := s.count + 1 }

/-- Inserts tokens, given newest first, behind the first `count` ones. -/
def insert (count : Nat) (ts : List Token) (s : Scan) : Scan :=
  let behind := s.count - count
  { s with tokens := s.tokens.take behind ++ ts ++ s.tokens.drop behind
           count := s.count + ts.length }

/-- Ends the block collections from a column on. -/
def closeFrom (column : Nat) (s : Scan) : Scan :=
  if s.inFlow then s
  else
    let closed := s.columns.takeWhile (column ≤ ·)
    { s with columns := s.columns.drop closed.length
             tokens := closed.map (fun _ => .blockEnd) ++ s.tokens
             count := s.count + closed.length }

/-- Whether a block collection starts in a column. -/
def opensAt (column : Nat) (s : Scan) : Bool := !s.inFlow && s.least ≤ column

/-- Starts a block collection at the place if it is further in than the others. -/
def openBlock (t : Token) (s : Scan) : Scan :=
  if s.opensAt s.place.column then
    { s.push t s.place with columns := s.place.column :: s.columns }
  else s

/-- Gives up the candidate. One that is required cannot be given up. -/
def dropCandidate? (s : Scan) : Option Scan :=
  match s.candidate with
  | some c => if c.isRequired then none else some { s with candidate := none }
  | none => some s

/-- Makes the place a candidate if a name may start there. A name must start where the
entries of a block table do. -/
def saveCandidate? (s : Scan) : Option Scan :=
  if s.allowsName then
    s.dropCandidate?.map fun s =>
      let isRequired := !s.inFlow && s.columns.head? = some s.place.column
      { s with candidate := some ⟨isRequired, s.count, s.place⟩ }
  else some s

end Scan

end FlowTally.Yaml
