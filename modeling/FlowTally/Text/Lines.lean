import FlowTally.Text.Blank

/-!
# Lines of an input

An input is a byte string whose lines end at a line feed. A line feed at the very
end opens no further line. A carriage return before a line feed is blank, so
trimming removes it.
-/

namespace FlowTally.Text

/-- Puts one byte in front of the lines that follow it. -/
def pushByte (b : UInt8) (lines : List (List UInt8)) : List (List UInt8) :=
  if b = 10 then [] :: lines
  else match lines with
    | [] => [[b]]
    | line :: rest => (b :: line) :: rest

/-- The lines of a byte string, without their line feeds. -/
def splitLines (bytes : List UInt8) : List (List UInt8) :=
  bytes.foldr pushByte []

/-- The text of one line, or `none` where its bytes are not UTF-8. -/
def decodeLine (line : List UInt8) : Option String :=
  String.fromUTF8? (ByteArray.mk line.toArray)

/-- The lines of an input as texts. -/
def inputLines (input : ByteArray) : List (Option String) :=
  (splitLines input.toList).map decodeLine

@[simp] theorem splitLines_nil : splitLines [] = [] := rfl

@[simp] theorem splitLines_cons (b : UInt8) (bytes : List UInt8) :
    splitLines (b :: bytes) = pushByte b (splitLines bytes) := rfl

/-- A part that ends in a line feed contributes its lines and nothing else. -/
theorem splitLines_append (front back : List UInt8) :
    splitLines (front ++ 10 :: back) = splitLines (front ++ [10]) ++ splitLines back := by
  induction front with
  | nil => simp [pushByte]
  | cons b front ih =>
    simp only [List.cons_append, splitLines_cons, ih]
    by_cases hb : b = 10
    · simp [pushByte, hb]
    · cases hl : splitLines (front ++ [10]) with
      | nil =>
        exfalso
        cases front with
        | nil => simp [pushByte] at hl
        | cons c cs =>
          simp only [List.cons_append, splitLines_cons, pushByte] at hl
          split at hl
          · simp at hl
          · split at hl <;> simp at hl
      | cons line rest => simp [pushByte, hb]

end FlowTally.Text
