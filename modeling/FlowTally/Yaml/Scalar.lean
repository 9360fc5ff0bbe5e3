import FlowTally.Config.Setting
import FlowTally.Decimal.Digits
import FlowTally.Text.Hex
import FlowTally.Yaml.Token

/-!
# What scalars mean

Every scalar is a text. A plain one can be an integer or a truth value besides, and so
can a literal one with the tag of that kind. A tag that starts with an exclamation mark
is itself a word of a fixed choice; nothing may be written behind it then.
-/

namespace FlowTally.Yaml

open Decimal Text

/-- The number that digits in a base spell, if all are digits and there is one. -/
def ofBase? (base : Nat) (cs : List Char) : Option Nat :=
  if cs = [] then none
  else cs.foldlM (fun n c => (hexValue? c).bind fun d =>
    if d < base then some (n * base + d) else none) 0

/-- Whether digits follow a zero, which makes a text of the scalar. -/
def hasLeadingZero : List Char → Bool
  | '0' :: d :: ds => (d :: ds).all isDigit
  | _ => false

/-- The natural number that a scalar stands for: decimal, hexadecimal, octal or binary,
with a plus sign allowed in front. -/
def natural? (cs : List Char) : Option Nat :=
  let unsigned := match cs with
    | '+' :: rest => rest
    | cs => cs
  match unsigned with
  | '0' :: 'x' :: ds => ofBase? 16 ds
  | '0' :: 'o' :: ds => ofBase? 8 ds
  | '0' :: 'b' :: ds => ofBase? 2 ds
  | ds => if hasLeadingZero ds then none else ofBase? 10 ds

/-- The truth value that a scalar stands for. -/
def bool? (s : String) : Option Bool :=
  if s ∈ ["true", "True", "TRUE"] then some true
  else if s ∈ ["false", "False", "FALSE"] then some false
  else none

/-- Whether a scalar stands for nothing. -/
def isNull (s : String) : Bool := s ∈ ["", "null", "Null", "NULL", "~"]

/-- The bytes of a tag. -/
def tagOf (s : String) : List UInt8 := s.toUTF8.toList

/-- Whether a scalar can be more than a text: a plain one can, and a literal one with the
tag of that kind. -/
def isTyped (style : Style) (tag : Option (List UInt8)) (kind : String) : Bool :=
  match style with
  | .plain => true
  | .literal => tag = some (tagOf kind)
  | _ => false

/-- The word that a scalar is: what stands behind the exclamation mark of its tag, or else
its text. -/
def wordOf? (style : Style) (tag : Option (List UInt8)) (s : String) : Option String :=
  match tag with
  | some (0x21 :: name) =>
    match String.fromUTF8? (ByteArray.mk name.toArray) with
    | some name => if style = .plain && isNull s then some name else none
    | none => some s
  | _ => some s

/-- The meaning of a scalar. -/
def scalarSetting (style : Style) (tag : Option (List UInt8)) (cs : List Char) : Setting :=
  let s := String.ofList cs
  .scalar {
    text? := some s
    word? := wordOf? style tag s
    integer? :=
      if isTyped style tag "tag:yaml.org,2002:int" then (natural? cs).map fun n => (n : Int)
      else none
    bool? := if isTyped style tag "tag:yaml.org,2002:bool" then bool? s else none
    isVoid := style = .plain && cs.isEmpty }

/-- The meaning of a place where nothing is written. -/
def void : Setting := scalarSetting .plain none []

end FlowTally.Yaml
