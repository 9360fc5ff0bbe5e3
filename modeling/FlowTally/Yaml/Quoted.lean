import FlowTally.Text.Hex
import FlowTally.Yaml.Blanks

/-!
# Quoted scalars

Between single quotes a quote is written twice. Between double quotes a backslash
starts an escape; in front of a line break it joins the lines without a blank.
-/

namespace FlowTally.Yaml

open Text

/-- The number that hexadecimal digits spell. -/
def hexNumber? (ds : List Char) : Option Nat :=
  ds.foldlM (fun n c => (hexValue? c).map (16 * n + ·)) 0

/-- The character that a number of hexadecimal digits at the front spell. -/
def charOfHex? (n : Nat) (cs : List Char) : Option Char :=
  let digits := cs.take n
  if digits.length < n then none
  else (hexNumber? digits).bind fun code =>
    if code < 0xd800 ∨ (0xe000 ≤ code ∧ code < 0x110000) then some (Char.ofNat code) else none

/-- The character behind a backslash of one letter. -/
def simpleEscape? : Char → Option Char
  | '0' => some '\x00'
  | 'a' => some '\x07'
  | 'b' => some '\x08'
  | 't' => some '\t'
  | '\t' => some '\t'
  | 'n' => some '\n'
  | 'v' => some '\x0b'
  | 'f' => some '\x0c'
  | 'r' => some '\r'
  | 'e' => some '\x1b'
  | ' ' => some ' '
  | '"' => some '"'
  | '/' => some '/'
  | '\\' => some '\\'
  | 'N' => some '\u0085'
  | '_' => some '\u00a0'
  | 'L' => some '\u2028'
  | 'P' => some '\u2029'
  | _ => none

/-- What an escape stands for and how many characters it has behind its backslash. -/
def escape? : List Char → Option (Char × Nat)
  | [] => none
  | 'x' :: rest => (charOfHex? 2 rest).map (·, 3)
  | 'u' :: rest => (charOfHex? 4 rest).map (·, 5)
  | 'U' :: rest => (charOfHex? 8 rest).map (·, 9)
  | c :: _ => (simpleEscape? c).map (·, 1)

/-- What a scan of quoted characters has found. -/
structure QuotedScan where
  /-- The characters, written backwards. -/
  text : List Char
  /-- The place behind. -/
  place : Place
  /-- Whether it ends with an escaped line break. -/
  joinsLines : Bool

/-- The characters up to a blank, to the closing quote or behind an escaped line break,
behind the characters `text`. -/
def quotedWord? (quote : Char) (fuel : Nat) (text : List Char) (p : Place) : Option QuotedScan :=
  match fuel, p.rest with
  | 0, _ => none
  | _, [] => some ⟨text, p, false⟩
  | fuel + 1, c :: rest =>
    if isBlank c then some ⟨text, p, false⟩
    else if c = quote then
      if quote = '\'' ∧ rest.head? = some '\'' then quotedWord? quote fuel (c :: text) (p.skip 2)
      else some ⟨text, p, false⟩
    else if c = '\\' ∧ quote = '"' then
      if rest.head?.any isBreak then some ⟨text, (p.skip 1).skipBreak, true⟩
      else match escape? rest with
        | none => none
        | some (c, n) => quotedWord? quote fuel (c :: text) (p.skip (n + 1))
    else quotedWord? quote fuel (c :: text) (p.skip 1)

/-- The rest of a quoted scalar, behind the characters `text` written backwards, and the
place behind its closing quote. -/
def quotedRest? (quote : Char) (fuel : Nat) (text : List Char) (p : Place) :
    Option (List Char × Place) :=
  match fuel with
  | 0 => none
  | fuel + 1 =>
    if p.isMarker || p.rest.isEmpty then none
    else match quotedWord? quote (fuel + 1) text p with
      | none => none
      | some ⟨text, p, joinsLines⟩ =>
        if p.rest.head? = some quote then some (text.reverse, p.skip 1)
        else
          let gaps := p.front isGap
          match passBreaks? 0 (fuel + 1) [] (p.behind gaps) with
          | none => none
          | some (breaks, p) =>
            let blanks := if joinsLines then breaks else folded gaps breaks
            quotedRest? quote fuel (blanks.reverse ++ text) p

/-- The scalar between quotes that starts at a place, and the place behind it. -/
def quoted? (fuel : Nat) (p : Place) : Option (List Char × Place) :=
  p.rest.head?.bind fun quote => quotedRest? quote fuel [] (p.skip 1)

end FlowTally.Yaml
