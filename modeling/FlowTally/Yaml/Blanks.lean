import FlowTally.Yaml.Place

/-!
# Blanks between words

Between two words of a scalar stand gaps on one line, or line breaks with gaps around
them. Gaps are kept. Of line breaks the first becomes a space if it is alone and nothing
if others follow, so a text can be folded over lines; the others are kept.
-/

namespace FlowTally.Yaml

/-- The line breaks at a place, in order, with the gaps behind them, and the place behind
all. A tab in front of the column `least` of a line indents nothing and is refused. -/
def passBreaks? (least fuel : Nat) (breaks : List Char) (p : Place) :
    Option (List Char × Place) :=
  match fuel, p.rest with
  | 0, _ => none
  | _, [] => some (breaks.reverse, p)
  | fuel + 1, c :: _ =>
    if isBreak c then
      let next := p.skipBreak
      let gap := next.front isGap
      if '\t' ∈ gap.take least then none
      else passBreaks? least fuel (breakChar c :: breaks) (next.behind gap)
    else some (breaks.reverse, p)

/-- What the blanks between two words are read as. -/
def folded (gaps : List Char) : List Char → List Char
  | [] => gaps
  | ['\n'] => [' ']
  | '\n' :: more => more
  | breaks => breaks

end FlowTally.Yaml
