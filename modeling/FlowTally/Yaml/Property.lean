import FlowTally.Text.Hex
import FlowTally.Yaml.Place

/-!
# Anchors and tags

In front of a node may stand a name for it and the kind of it. A tag is written with a
handle or between angle brackets, and bytes of it may be written as a percent sign and
two digits.
-/

namespace FlowTally.Yaml

open Text

/-- Whether a character can stand in a name. -/
def isNameChar (c : Char) : Bool := c.isAlphanum || c = '_' || c = '-'

/-- The name of an anchor behind its sign, and the place behind it. -/
def anchorName? (p : Place) : Option (List Char × Place) :=
  let p := p.skip 1
  let name := p.front isNameChar
  let p := p.behind name
  let ends := atBlank p.rest ||
    p.rest.head?.any (· ∈ ['?', ':', ',', ']', '\x7d', '%', '@', '\x60'])
  if name.isEmpty || !ends then none else some (name, p)

/-- Whether a character can stand in a tag as itself. Between angle brackets and in a
directive there may be commas and square brackets too. -/
def isTagChar (isWide : Bool) (c : Char) : Bool :=
  isNameChar c || c ∈ [';', '/', '?', ':', '@', '&', '=', '+', '$', '.', '!', '~', '*', '\'', '(',
    ')'] || (isWide && c ∈ [',', '[', ']'])

/-- The byte that a percent sign and two digits spell. -/
def octet? : List Char → Option Nat
  | '%' :: high :: low :: _ => do
    let high ← hexValue? high
    let low ← hexValue? low
    some (16 * high + low)
  | _ => none

/-- How many bytes follow the first one of a character. -/
def followers? (lead : Nat) : Option Nat :=
  if lead < 0x80 then some 0
  else if lead < 0xc0 then none
  else if lead < 0xe0 then some 1
  else if lead < 0xf0 then some 2
  else if lead < 0xf8 then some 3
  else none

/-- Some more bytes of a character, behind the bytes given backwards. -/
def moreOctets? (n : Nat) (bytes : List UInt8) (p : Place) : Option (List UInt8 × Place) :=
  match n with
  | 0 => some (bytes, p)
  | n + 1 =>
    match octet? p.rest with
    | none => none
    | some b =>
      if b / 64 = 2 then moreOctets? n (UInt8.ofNat b :: bytes) (p.skip 3) else none

/-- The bytes of a tag up to the first character that cannot stand in it, behind the bytes
given backwards. -/
def tagBytes? (isWide : Bool) (fuel : Nat) (bytes : List UInt8) (p : Place) :
    Option (List UInt8 × Place) :=
  match fuel, p.rest with
  | 0, _ => none
  | _, [] => some (bytes, p)
  | fuel + 1, c :: _ =>
    if c = '%' then
      match octet? p.rest with
      | none => none
      | some b =>
        match (followers? b).bind fun n => moreOctets? n (UInt8.ofNat b :: bytes) (p.skip 3) with
        | none => none
        | some (bytes, p) => tagBytes? isWide fuel bytes p
    else if isTagChar isWide c then
      tagBytes? isWide fuel (UInt8.ofNat c.toNat :: bytes) (p.skip 1)
    else some (bytes, p)

/-- A part of a tag: a byte of zero ends it. -/
def tagPart (bytes : List UInt8) : List UInt8 := bytes.reverse.takeWhile (· ≠ 0)

/-- The handle at a place and the place behind it: an exclamation mark, a name that may be
empty, and an exclamation mark that may be missing. -/
def tagHandle? (p : Place) : Option (List Char × Place) :=
  match p.rest with
  | '!' :: _ =>
    let name := (p.skip 1).front isNameChar
    let p := (p.skip 1).behind name
    match p.rest with
    | '!' :: _ => some ('!' :: name ++ ['!'], p.skip 1)
    | _ => some ('!' :: name, p)
  | _ => none

/-- A tag without brackets. A handle is closed by its second exclamation mark; without one
all belongs to the suffix of the handle that has no name. The lone mark has no handle. -/
def shortTag? (fuel : Nat) (p : Place) : Option (List Char × List UInt8 × Place) := do
  let (handle, p) ← tagHandle? p
  if 1 < handle.length ∧ handle.getLast? = some '!' then
    let (bytes, next) ← tagBytes? false fuel [] p
    if next.offset = p.offset then none
    else some (handle, tagPart bytes, next)
  else
    let name := (handle.drop 1).map fun c => UInt8.ofNat c.toNat
    let (bytes, p) ← tagBytes? false fuel name.reverse p
    match tagPart bytes with
    | [] => some ([], [0x21], p)
    | suffix => some (['!'], suffix, p)

/-- A tag between angle brackets. -/
def longTag? (fuel : Nat) (p : Place) : Option (List Char × List UInt8 × Place) := do
  let p := p.skip 2
  let (bytes, next) ← tagBytes? true fuel [] p
  match next.rest with
  | '>' :: _ => if next.offset = p.offset then none else some ([], tagPart bytes, next.skip 1)
  | _ => none

/-- The handle and the suffix of the tag at a place, and the place behind it. -/
def tag? (inFlow : Bool) (fuel : Nat) (p : Place) :
    Option (List Char × List UInt8 × Place) := do
  let (handle, suffix, p) ← match p.rest with
    | '!' :: '<' :: _ => longTag? fuel p
    | _ => shortTag? fuel p
  if atBlank p.rest || (inFlow && p.rest.head? = some ',') then some (handle, suffix, p) else none

end FlowTally.Yaml
