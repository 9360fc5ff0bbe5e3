import FlowTally.Text.Lines
import Mathlib.Data.List.Basic

/-!
# The lines of an input and the bytes they stand in

A line is found between the line feeds around it. Where the bytes in front of it end a line, the
lines of an input are those in front, the line itself and those behind it, so that taking its bytes
out takes out this one line. Every line of an input stands in such a place.
-/

namespace FlowTally.Text

/-- The list of the bytes of an array is read off from a position on. -/
theorem toListLoop_eq (bytes : ByteArray) (i : Nat) (front : List UInt8) :
    ByteArray.toList.loop bytes i front = front.reverse ++ bytes.data.toList.drop i := by
  fun_induction ByteArray.toList.loop bytes i front with
  | case1 i front hi ih =>
    have hlength : i < bytes.data.toList.length := by
      rwa [Array.length_toList, ByteArray.size_data]
    have hbyte : bytes.get! i = bytes.data.toList[i] := by
      simp only [ByteArray.get!, Array.getElem_toList]
      exact getElem!_pos bytes.data i hi
    rw [ih, List.reverse_cons, List.append_assoc, List.singleton_append, hbyte,
      List.drop_eq_getElem_cons hlength]
  | case2 i front hi =>
    have hlength : bytes.data.toList.length ≤ i := by
      rw [Array.length_toList, ByteArray.size_data]
      omega
    rw [List.drop_eq_nil_of_le hlength, List.append_nil]

/-- The list of the bytes of an array is that of its data. -/
theorem toList_eq_data (bytes : ByteArray) : bytes.toList = bytes.data.toList :=
  toListLoop_eq bytes 0 []

/-- The bytes of two arrays one after the other. -/
@[simp] theorem toList_append (front back : ByteArray) :
    (front ++ back).toList = front.toList ++ back.toList := by
  simp only [toList_eq_data, ByteArray.data_append, Array.toList_append]

/-- The bytes of an array that was made of a list. -/
@[simp] theorem toList_mk (bytes : List UInt8) : (ByteArray.mk bytes.toArray).toList = bytes :=
  toList_eq_data _

/-- Bytes without a line feed are one line. -/
theorem splitLines_of_notMem {body : List UInt8} (hbody : 10 ∉ body) (hne : body ≠ []) :
    splitLines body = [body] := by
  induction body with
  | nil => exact absurd rfl hne
  | cons b rest ih =>
    obtain ⟨hb, hrest⟩ := not_or.mp (mt List.mem_cons.mpr hbody)
    have hne' : b ≠ 10 := fun h => hb h.symm
    cases rest with
    | nil => simp only [splitLines_cons, splitLines_nil, pushByte, if_neg hne']
    | cons c rest =>
      rw [splitLines_cons, ih hrest (List.cons_ne_nil c rest)]
      simp only [pushByte, if_neg hne']

/-- A line feed ends the line in front of it. -/
theorem splitLines_feed {body : List UInt8} (hbody : 10 ∉ body) (back : List UInt8) :
    splitLines (body ++ 10 :: back) = body :: splitLines back := by
  induction body with
  | nil => simp only [List.nil_append, splitLines_cons, pushByte, if_true]
  | cons b rest ih =>
    obtain ⟨hb, hrest⟩ := not_or.mp (mt List.mem_cons.mpr hbody)
    have hne : b ≠ 10 := fun h => hb h.symm
    rw [List.cons_append, splitLines_cons, ih hrest]
    simp only [pushByte, if_neg hne]

/-- Whether bytes end where a line ends. -/
def EndsLine (bytes : List UInt8) : Prop := bytes = [] ∨ ∃ before, bytes = before ++ [10]

/-- The lines behind bytes that end a line are lines of their own. -/
theorem EndsLine.splitLines_append {front : List UInt8} (h : EndsLine front) (back : List UInt8) :
    splitLines (front ++ back) = splitLines front ++ splitLines back := by
  rcases h with rfl | ⟨before, rfl⟩
  · rfl
  · rw [List.append_assoc, List.singleton_append, Text.splitLines_append]

/-- A line of an input with the bytes around it. A line feed ends it, unless it is the last. -/
structure InputLine where
  /-- The bytes in front of the line. -/
  front : ByteArray
  /-- The bytes of the line, without its line feed. -/
  body : List UInt8
  /-- The line feed that ends the line, if there is one. -/
  feed : List UInt8
  /-- The bytes behind the line. -/
  back : ByteArray
  /-- The line starts where the input starts or another line ends. -/
  endsLine_front : EndsLine front.toList
  /-- There is no line feed within the line. -/
  feed_notMem : 10 ∉ body
  /-- A line that no line feed ends is not empty, and the last. -/
  feed_or_last : feed = [10] ∨ feed = [] ∧ body ≠ [] ∧ back.toList = []

namespace InputLine

/-- The bytes of the line, with its line feed. -/
def bytes (line : InputLine) : ByteArray := ByteArray.mk (line.body ++ line.feed).toArray

/-- The whole input. -/
def input (line : InputLine) : ByteArray := line.front ++ line.bytes ++ line.back

/-- The input without the line. -/
def others (line : InputLine) : ByteArray := line.front ++ line.back

/-- The text of the line, or `none` where its bytes are not UTF-8. -/
def text (line : InputLine) : Option String := decodeLine line.body

variable (line : InputLine)

/-- The line is the first of the bytes from it on. -/
theorem splitLines_bytes :
    splitLines (line.bytes.toList ++ line.back.toList) =
      line.body :: splitLines line.back.toList := by
  rw [bytes, toList_mk, List.append_assoc]
  rcases line.feed_or_last with hfeed | ⟨hfeed, hne, hback⟩
  · rw [hfeed, List.singleton_append, splitLines_feed line.feed_notMem]
  · rw [hfeed, hback, List.append_nil, List.append_nil,
      splitLines_of_notMem line.feed_notMem hne, splitLines_nil]

/-- The lines of the input are those in front of the line, the line and those behind it. -/
theorem inputLines_input :
    inputLines line.input = inputLines line.front ++ line.text :: inputLines line.back := by
  simp only [inputLines, input, toList_append, List.append_assoc]
  rw [line.endsLine_front.splitLines_append, line.splitLines_bytes, List.map_append, List.map_cons,
    text]

/-- The other lines are those in front of the line and those behind it. -/
theorem inputLines_others :
    inputLines line.others = inputLines line.front ++ inputLines line.back := by
  simp only [inputLines, others, toList_append]
  rw [line.endsLine_front.splitLines_append, List.map_append]

end InputLine

/-- Bytes are nothing, a last line, or a line that a line feed ends and bytes behind it. -/
theorem eq_nil_or_line (bytes : List UInt8) :
    bytes = [] ∨ (bytes ≠ [] ∧ 10 ∉ bytes) ∨
      ∃ body back, bytes = body ++ 10 :: back ∧ 10 ∉ body := by
  by_cases hfeed : 10 ∈ bytes
  · obtain ⟨body, back, heq, hbody⟩ := List.eq_append_cons_of_mem hfeed
    exact .inr (.inr ⟨body, back, heq, hbody⟩)
  · by_cases hne : bytes = []
    · exact .inl hne
    · exact .inr (.inl ⟨hne, hfeed⟩)

/-- Each line of bytes stands behind the bytes of the lines in front of it. -/
theorem exists_line_of_splitLines {before : List (List UInt8)} {body : List UInt8}
    {after : List (List UInt8)} {bytes : List UInt8}
    (h : splitLines bytes = before ++ body :: after) :
    ∃ front feed back, bytes = front ++ (body ++ feed) ++ back ∧ EndsLine front ∧ 10 ∉ body ∧
      (feed = [10] ∨ feed = [] ∧ body ≠ [] ∧ back = []) := by
  induction before generalizing bytes with
  | nil =>
    rcases eq_nil_or_line bytes with rfl | ⟨hne, hfeed⟩ | ⟨first, back, rfl, hfeed⟩
    · cases h
    · rw [splitLines_of_notMem hfeed hne] at h
      obtain ⟨rfl, -⟩ := List.cons.inj h
      refine ⟨[], [], [], ?_, .inl rfl, hfeed, .inr ⟨rfl, hne, rfl⟩⟩
      simp only [List.nil_append, List.append_nil]
    · rw [splitLines_feed hfeed] at h
      obtain ⟨rfl, -⟩ := List.cons.inj h
      refine ⟨[], [10], back, ?_, .inl rfl, hfeed, .inl rfl⟩
      simp only [List.nil_append, List.append_assoc, List.singleton_append]
  | cons line before ih =>
    rcases eq_nil_or_line bytes with rfl | ⟨hne, hfeed⟩ | ⟨first, rest, rfl, hfeed⟩
    · cases h
    · rw [splitLines_of_notMem hfeed hne] at h
      have hnil := (List.cons.inj h).2.symm
      exact absurd hnil (List.append_ne_nil_of_right_ne_nil before (List.cons_ne_nil body after))
    · rw [splitLines_feed hfeed] at h
      obtain ⟨front, feed, back, rfl, hfront, hbody, hend⟩ := ih (List.cons.inj h).2
      refine ⟨first ++ 10 :: front, feed, back, ?_, ?_, hbody, hend⟩
      · simp only [List.append_assoc, List.cons_append]
      · rcases hfront with rfl | ⟨before, rfl⟩
        · exact .inr ⟨first, rfl⟩
        · exact .inr ⟨first ++ 10 :: before, by simp only [List.append_assoc, List.cons_append]⟩

/-- Each line of an input stands somewhere in it. -/
theorem exists_inputLine {input : ByteArray} {text : Option String} (h : text ∈ inputLines input) :
    ∃ line : InputLine, line.input = input ∧ line.text = text := by
  obtain ⟨body, hmem, rfl⟩ := List.mem_map.mp h
  obtain ⟨before, after, hsplit⟩ := List.append_of_mem hmem
  obtain ⟨front, feed, back, hbytes, hfront, hbody, hend⟩ := exists_line_of_splitLines hsplit
  refine ⟨⟨⟨front.toArray⟩, body, feed, ⟨back.toArray⟩, ?_, hbody, ?_⟩, ?_, rfl⟩
  · rwa [toList_mk]
  · rwa [toList_mk]
  · apply ByteArray.ext
    apply Array.toList_inj.mp
    rw [← toList_eq_data, ← toList_eq_data, hbytes]
    simp only [InputLine.input, InputLine.bytes, toList_append, toList_mk]

end FlowTally.Text
