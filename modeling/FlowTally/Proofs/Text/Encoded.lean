import FlowTally.Proofs.Text.ByteOrder
import FlowTally.Text.Blank

/-!
# The lines of an encoded text

A line feed is encoded by one byte, and the encoding of no other character holds this byte. So an
encoded text falls into the encodings of the lines of the text, and each of them decodes to the line
that it was. A text that ends in a line feed has an empty line behind it that its bytes do not have;
blank lines do not count, so this makes no difference.
-/

namespace FlowTally.Text

/-- The lines of a text: what stands between its line feeds. -/
def lines (text : String) : List String := (text.toList.splitOn '\n').map String.ofList

/-- A line without the blank characters around it, unless it is blank. -/
def trimmed? (line : String) : Option String :=
  match trim line.toList with
  | [] => none
  | cs => some (String.ofList cs)

/-- The lines of a text that are not blank, without the blank characters around them. -/
def filledLines (text : String) : List String := (lines text).filterMap trimmed?

/-- The encoding of a character other than a line feed holds no line feed. -/
theorem feed_notMem_utf8EncodeChar {c : Char} (h : c ≠ '\n') : 10 ∉ String.utf8EncodeChar c := by
  have hval : c.val.toNat ≠ 10 := fun heq => h (Char.ext (UInt32.toNat_inj.mp heq))
  have hbound : c.val.toNat < 0x110000 := by
    rcases c.valid with hc | ⟨-, hc⟩
    · omega
    · omega
  have hten : (10 : UInt8) = UInt8.ofNat 10 := rfl
  simp only [String.utf8EncodeChar]
  generalize c.val.toNat = v at *
  -- In an encoding of several bytes each byte is at least 128.
  split_ifs
  all_goals
    simp only [List.mem_cons, List.not_mem_nil, or_false, not_or, hten]
    simp (disch := omega) only [byte_eq_iff]
    omega

/-- Bytes without a line feed stand in front of the first line. -/
theorem splitOn_append_of_notMem {front : List UInt8} (h : 10 ∉ front) (back : List UInt8) :
    (front ++ back).splitOn 10 = (back.splitOn 10).modifyHead (front ++ ·) := by
  induction front with
  | nil =>
    rw [List.nil_append]
    cases back.splitOn 10 with
    | nil => rfl
    | cons line more => rfl
  | cons b rest ih =>
    obtain ⟨hb, hrest⟩ := not_or.mp (mt List.mem_cons.mpr h)
    have hne : ¬(b == 10) = true := fun heq => hb (beq_iff_eq.mp heq).symm
    rw [List.cons_append, List.splitOn_cons_eq_if_modifyHead, if_neg hne, ih hrest,
      List.modifyHead_modifyHead]
    rfl

/-- The lines of encoded characters are the encodings of their lines. -/
theorem splitOn_flatMap_encode (cs : List Char) :
    (cs.flatMap String.utf8EncodeChar).splitOn 10 =
      (cs.splitOn '\n').map fun line => line.flatMap String.utf8EncodeChar := by
  induction cs with
  | nil => rfl
  | cons c rest ih =>
    rw [List.flatMap_cons, List.splitOn_cons_eq_if_modifyHead]
    by_cases hc : c = '\n'
    · have hfeed : String.utf8EncodeChar c = [10] := by
        rw [hc]
        rfl
      rw [if_pos (beq_iff_eq.mpr hc), hfeed, List.map_cons, ← ih]
      rfl
    · rw [if_neg fun heq => hc (beq_iff_eq.mp heq),
        splitOn_append_of_notMem (feed_notMem_utf8EncodeChar hc), ih]
      cases rest.splitOn '\n' with
      | nil => rfl
      | cons line more => rfl

/-- What stands between the line feeds of bytes are their lines, and an empty one behind a last line
feed. -/
theorem splitOn_cases (bytes : List UInt8) :
    bytes.splitOn 10 = splitLines bytes ∨ bytes.splitOn 10 = splitLines bytes ++ [[]] := by
  induction bytes with
  | nil => exact .inr rfl
  | cons b rest ih =>
    rw [List.splitOn_cons_eq_if_modifyHead, splitLines_cons]
    by_cases hb : b = 10
    · simp only [pushByte, hb, beq_self_eq_true, if_true]
      exact ih.imp (congrArg ([] :: ·)) (congrArg ([] :: ·))
    · simp only [pushByte, if_neg hb, if_neg fun heq => hb (beq_iff_eq.mp heq)]
      have hne := List.splitOn_ne_nil 10 rest
      cases hlines : splitLines rest with
      | nil =>
        rw [hlines] at ih
        rw [ih.resolve_left hne]
        exact .inl rfl
      | cons line more =>
        rw [hlines] at ih
        rcases ih with ih | ih
        · rw [ih]
          exact .inl rfl
        · rw [ih]
          exact .inr rfl

/-- The encoding of a line decodes to the line. -/
theorem decodeLine_encode (line : List Char) :
    decodeLine (line.flatMap String.utf8EncodeChar) = some (String.ofList line) := by
  have hbytes : ByteArray.mk (line.flatMap String.utf8EncodeChar).toArray =
      (String.ofList line).toByteArray := by
    have hlist := toList_toUTF8 (String.ofList line)
    rw [String.toList_ofList, String.toUTF8_eq_toByteArray, toList_eq_data] at hlist
    rw [← hlist, Array.toArray_toList]
  rw [decodeLine, hbytes, String.fromUTF8?, dif_pos (String.ofList line).isValidUTF8]
  rfl

/-- The lines of an encoded text are those of the text, a last empty one apart. -/
theorem inputLines_toUTF8 (text : String) :
    (lines text).map some = inputLines text.toUTF8 ∨
      (lines text).map some = inputLines text.toUTF8 ++ [some ""] := by
  have hdecoded : (lines text).map some = (text.toUTF8.toList.splitOn 10).map decodeLine := by
    rw [toList_toUTF8, splitOn_flatMap_encode, lines, List.map_map, List.map_map]
    exact List.map_congr_left fun line _ => (decodeLine_encode line).symm
  rw [hdecoded]
  rcases splitOn_cases text.toUTF8.toList with hsplit | hsplit
  · rw [hsplit]
    exact .inl rfl
  · rw [hsplit, List.map_append]
    exact .inr rfl

/-- A text that is cut behind a line feed falls into the lines of its two parts. -/
theorem filledLines_append (front back : String) :
    filledLines (front ++ "\n" ++ back) = filledLines (front ++ "\n") ++ filledLines back := by
  have hfeed : ("\n" : String).toList = ['\n'] := rfl
  have hempty : String.ofList ([] : List Char) = "" := rfl
  have hblank : trimmed? "" = none := rfl
  simp only [filledLines, lines, String.toList_append, hfeed, List.append_assoc,
    List.singleton_append, List.splitOn_append_cons_self, List.splitOn_nil, List.map_append,
    List.filterMap_append, List.map_cons, List.map_nil, hempty, List.filterMap_cons, hblank,
    List.filterMap_nil, List.append_nil]

end FlowTally.Text
