import FlowTally.Address.Basic
import FlowTally.Decimal.Digits
import FlowTally.Text.Hex

/-!
# Written addresses

An address of 32 bits is four decimal octets. One of 128 bits is eight groups of up
to four hexadecimal digits; one run of zero groups may be written as a double
colon, and the last two groups as four octets. The printed form takes the first
longest run of at least two zero groups, and octets only for addresses that embed
one of the other family.
-/

namespace FlowTally.Address

open Decimal Text

/-- The four octets of a word, from the highest. -/
def octets (word : BitVec 32) : List Nat :=
  let n := word.toNat
  [n >>> 24, (n >>> 16) % 256, (n >>> 8) % 256, n % 256]

/-- The eight groups of a word, from the highest. -/
def groups (word : BitVec 128) : List Nat :=
  let n := word.toNat
  [n >>> 112, (n >>> 96) % 0x10000, (n >>> 80) % 0x10000, (n >>> 64) % 0x10000,
    (n >>> 48) % 0x10000, (n >>> 32) % 0x10000, (n >>> 16) % 0x10000, n % 0x10000]

/-- The word with the given digits in base `2 ^ width`. -/
def joinDigits (width : Nat) (ds : List Nat) : Nat :=
  ds.foldl (fun n d => (n <<< width) + d) 0

/-- Joins texts with a separator. -/
def separated (sep : Char) : List (List Char) → List Char
  | [] => []
  | [text] => text
  | text :: rest => text ++ sep :: separated sep rest

/-- Four octets with points between them. -/
def octetText (word : BitVec 32) : List Char :=
  separated '.' ((octets word).map digits)

/-- A group without leading zeros. -/
def groupText (n : Nat) : List Char :=
  let ds := [hexDigit (n / 0x1000), hexDigit (n / 0x100 % 16), hexDigit (n / 0x10 % 16)]
  ds.dropWhile (· = '0') ++ [hexDigit (n % 16)]

/-- Start and length of the first longest run of zeros in a list, whose elements
are numbered from `at`. -/
def zeroRun (start : Nat) : List Nat → Nat × Nat
  | [] => (start, 0)
  | n :: rest =>
    let here := ((n :: rest).takeWhile (· = 0)).length
    let later := zeroRun (start + 1) rest
    if later.2 ≤ here then (start, here) else later

/-- Eight groups, with the first longest run of at least two zeros left out. -/
def groupsText (gs : List Nat) : List Char :=
  let (start, length) := zeroRun 0 gs
  if length < 2 then separated ':' (gs.map groupText)
  else
    separated ':' ((gs.take start).map groupText) ++ ':' :: ':' ::
      separated ':' ((gs.drop (start + length)).map groupText)

/-- The written form of an address. -/
def text : Address → List Char
  | .v4 word => octetText word
  | .v6 word =>
    if word.toNat >>> 32 = 0xffff then
      [':', ':', 'f', 'f', 'f', 'f', ':'] ++ octetText (BitVec.ofNat 32 word.toNat)
    else groupsText (groups word)

/-- A decimal octet: up to three digits, no leading zero, at most 255. -/
def octet? (cs : List Char) : Option (Nat × List Char) :=
  match cs.takeWhile isDigit with
  | [] => none
  | '0' :: _ :: _ => none
  | ds =>
    if ds.length ≤ 3 ∧ ofDigits ds ≤ 255 then some (ofDigits ds, cs.drop ds.length) else none

/-- Four octets with points between them. -/
def octets? (cs : List Char) : Option (Nat × List Char) :=
  let after? (cs : List Char) : Option (Nat × List Char) :=
    match cs with
    | '.' :: rest => octet? rest
    | _ => none
  do
    let (a, cs) ← octet? cs
    let (b, cs) ← after? cs
    let (c, cs) ← after? cs
    let (d, cs) ← after? cs
    some (joinDigits 8 [a, b, c, d], cs)

/-- A group: up to four hexadecimal digits. -/
def group? (cs : List Char) : Option (Nat × List Char) :=
  let ds := cs.takeWhile fun c => (hexValue? c).isSome
  if ds = [] ∨ 4 < ds.length then none
  else some (ds.foldl (fun n c => n * 16 + (hexValue? c).getD 0) 0, cs.drop ds.length)

/-- Up to `room` groups with colons between them, and what follows. `first` says
that no colon stands before the next group. Four octets may stand for the last two
groups; the answer says whether they did. -/
def groups? (first : Bool) : (room : Nat) → List Char → List Nat × Bool × List Char
  | 0, cs => ([], false, cs)
  | room + 1, cs =>
    let start? := if first then some cs else match cs with
      | ':' :: rest => some rest
      | _ => none
    match start? with
    | none => ([], false, cs)
    | some inner =>
      match (if room = 0 then none else octets? inner) with
      | some (n, rest) => ([n / 0x10000, n % 0x10000], true, rest)
      | none =>
        match group? inner with
        | none => ([], false, cs)
        | some (n, rest) =>
          let (gs, embedded, rest) := groups? false room rest
          (n :: gs, embedded, rest)

/-- The eight groups of an address, with a double colon for missing ones. -/
def groupsOf? (cs : List Char) : Option (List Nat × List Char) :=
  let (head, embedded, rest) := groups? true 8 cs
  if head.length = 8 then some (head, rest)
  else if embedded then none
  else match rest with
    | ':' :: ':' :: rest =>
      let (tail, _, rest) := groups? true (7 - head.length) rest
      some (head ++ List.replicate (8 - head.length - tail.length) 0 ++ tail, rest)
    | _ => none

/-- Reads an address; nothing may follow it. -/
def read? (s : String) : Option Address :=
  let cs := s.toList
  match octets? cs with
  | some (n, []) => some (.v4 (BitVec.ofNat 32 n))
  | some _ => none
  | none =>
    match groupsOf? cs with
    | some (gs, []) => some (.v6 (BitVec.ofNat 128 (joinDigits 16 gs)))
    | _ => none

end FlowTally.Address
