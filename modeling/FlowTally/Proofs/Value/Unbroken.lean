import FlowTally.Json.Printer
import FlowTally.Proofs.Address.ReadBack
import FlowTally.Proofs.Decimal.JsonText
import FlowTally.Proofs.Text.Encoded
import FlowTally.Proofs.Time.KeyText
import FlowTally.Value.Basic

/-!
# Texts that stay in their line

A text without control characters holds no line feed. The cells of a table are such texts, except
for those of texts, which a table shows as they are. A JSON text is one whatever it holds: each
control character of a text is escaped. A text of lines that hold no line feed falls into these
lines.
-/

namespace FlowTally

namespace Text

/-- A text without control characters. -/
def Unbroken (cs : List Char) : Prop := ∀ c ∈ cs, 32 ≤ c.toNat

variable {cs ds : List Char}

/-- A text without control characters holds no line feed. -/
theorem Unbroken.feed_notMem (h : Unbroken cs) : '\n' ∉ cs :=
  fun hmem => absurd (h '\n' hmem) (by decide)

@[simp] theorem unbroken_nil : Unbroken [] := fun _ hc => absurd hc List.not_mem_nil

@[simp] theorem unbroken_cons {c : Char} : Unbroken (c :: cs) ↔ 32 ≤ c.toNat ∧ Unbroken cs :=
  List.forall_mem_cons

@[simp] theorem unbroken_append : Unbroken (cs ++ ds) ↔ Unbroken cs ∧ Unbroken ds :=
  List.forall_mem_append

/-- A text is unbroken if it is put together from such texts. -/
theorem Unbroken.flatMap {α : Type} {xs : List α} {f : α → List Char}
    (h : ∀ x ∈ xs, Unbroken (f x)) : Unbroken (xs.flatMap f) := by
  intro c hc
  obtain ⟨x, hx, hc⟩ := List.mem_flatMap.mp hc
  exact h x hx c hc

/-- Decimal digits are no control characters. -/
theorem unbroken_of_isDigit (h : ∀ c ∈ cs, Decimal.isDigit c = true) : Unbroken cs := by
  intro c hc
  have hdigit := h c hc
  simp only [Decimal.isDigit, Bool.and_eq_true, decide_eq_true_eq] at hdigit
  omega

/-- Hexadecimal digits are no control characters. -/
theorem le_hexDigit : ∀ n < 16, 32 ≤ (hexDigit n).toNat := by decide

/-- The digits of bytes are unbroken. -/
theorem unbroken_hexBytes (bytes : List UInt8) : Unbroken (hexBytes bytes) := by
  refine .flatMap fun b _ c hc => ?_
  obtain ⟨n, hn, rfl⟩ := mem_hexPair hc
  exact le_hexDigit n hn

/-- A text of lines that hold no line feed falls into these lines. -/
theorem splitOn_feed {lines : List (List Char)} (h : ∀ line ∈ lines, '\n' ∉ line) :
    (lines.flatMap (· ++ ['\n'])).splitOn '\n' = lines ++ [[]] := by
  induction lines with
  | nil => rfl
  | cons line rest ih =>
    obtain ⟨hline, hrest⟩ := List.forall_mem_cons.mp h
    rw [List.flatMap_cons, List.append_assoc, List.singleton_append,
      List.splitOn_append_cons_self_of_not_mem hline, ih hrest, List.cons_append]

/-- The lines of a text whose lines hold no line feed, and an empty one behind the last. -/
theorem lines_feed {parts : List (List Char)} (h : ∀ part ∈ parts, '\n' ∉ part) :
    lines (String.ofList (parts.flatMap (· ++ ['\n']))) = parts.map String.ofList ++ [""] := by
  rw [lines, String.toList_ofList, splitOn_feed h, List.map_append]
  rfl

/-- A text has one line more than line feeds. -/
theorem length_lines (text : String) :
    (lines text).length = text.toList.count '\n' + 1 := by
  rw [lines, List.length_map]
  induction text.toList with
  | nil => rfl
  | cons c rest ih =>
    rw [List.splitOn_cons_eq_if_modifyHead, List.count_cons]
    split
    · rw [List.length_cons, ih]
    · rw [List.length_modifyHead, ih, Nat.add_zero]

end Text

open Text

/-- The digits of a number are unbroken. -/
@[simp] theorem Decimal.unbroken_digits (n : Nat) : Unbroken (digits n) :=
  unbroken_of_isDigit (isDigit_of_mem_digits n)

/-- Padded digits are unbroken. -/
@[simp] theorem Decimal.unbroken_padded (width n : Nat) : Unbroken (padded width n) :=
  unbroken_of_isDigit fun _ hc => isDigit_of_mem_padded hc

namespace Binary64

open Decimal

/-- A sign does not break a text. -/
theorem unbroken_withSign (x : Binary64) {cs : List Char} (h : Unbroken cs) :
    Unbroken (x.withSign cs) := by
  unfold withSign
  split
  · exact unbroken_cons.mpr ⟨by decide, h⟩
  · exact h

/-- The text of a number in a table is unbroken. -/
theorem unbroken_fixedText (places : Nat) (x : Binary64) : Unbroken (x.fixedText places) := by
  unfold fixedText
  split
  · simp +decide
  · split
    · exact x.unbroken_withSign (by simp +decide)
    · refine x.unbroken_withSign (unbroken_append.mpr ⟨unbroken_digits _, ?_⟩)
      exact unbroken_cons.mpr ⟨by decide, unbroken_padded _ _⟩

/-- The text of a magnitude in the form of JSON texts is unbroken. -/
theorem unbroken_jsonMagnitude (x : Binary64) : Unbroken x.jsonMagnitude := by
  have hdigits := isDigit_of_mem_digits
  have hpositional : ∀ (n : Nat) (e : ℤ), Unbroken (positional (digits n) e) := by
    intro n e c hc
    rcases mem_positional (hdigits n) hc with hc | rfl
    · exact unbroken_of_isDigit (List.forall_mem_singleton.mpr hc) c List.mem_cons_self
    · decide
  have hscientific : ∀ {ds : List Char} (lead : ℤ), Unbroken ds → Unbroken (scientific ds lead) := by
    intro ds lead hds
    have hexponent : Unbroken ('e' :: (if lead < 0 then '-' else '+') :: digits lead.natAbs) := by
      split <;> simp +decide
    refine unbroken_append.mpr ⟨?_, hexponent⟩
    split
    · exact unbroken_nil
    · exact hds
    · obtain ⟨hd, hrest⟩ := unbroken_cons.mp hds
      exact unbroken_cons.mpr ⟨hd, unbroken_cons.mpr ⟨by decide, hrest⟩⟩
  unfold jsonMagnitude
  split
  · simp +decide
  · dsimp only
    split
    · rw [unbroken_append]
      refine ⟨hpositional _ _, ?_⟩
      split
      · simp +decide
      · exact unbroken_nil
    · exact hscientific _ (unbroken_digits _)

end Binary64

/-- The text of a point in time is unbroken. -/
theorem Instant.unbroken_text (places : Places) {separator : Char} (h : 32 ≤ separator.toNat)
    (t : Instant) : Unbroken (t.text places separator) := by
  have hdigit : ∀ {c : Char}, Decimal.isDigit c = true → 32 ≤ c.toNat := fun hc =>
    unbroken_of_isDigit (List.forall_mem_singleton.mpr hc) _ List.mem_cons_self
  rw [text, unbroken_append, unbroken_cons]
  refine ⟨fun c hc => ?_, h, fun c hc => ?_⟩
  · rcases mem_dateText hc with hc | rfl | rfl
    · exact hdigit hc
    · decide
    · decide
  · rcases mem_clockText hc with hc | rfl | rfl
    · exact hdigit hc
    · decide
    · decide

namespace Address

/-- Texts with a separator between them are unbroken if they and the separator are. -/
theorem unbroken_separated {sep : Char} (hsep : 32 ≤ sep.toNat) {texts : List (List Char)}
    (h : ∀ text ∈ texts, Unbroken text) : Unbroken (separated sep texts) := by
  intro c hc
  rcases mem_separated hc with rfl | ⟨text, htext, hc⟩
  · exact hsep
  · exact h text htext c hc

/-- Hexadecimal digits of either case are no control characters. -/
theorem le_of_isHex {c : Char} (h : isHex c = true) : 32 ≤ c.toNat := by
  unfold isHex hexValue? at h
  dsimp only at h
  split at h
  · omega
  · split at h
    · omega
    · split at h
      · omega
      · cases h

/-- The text of an address is unbroken. -/
theorem unbroken_text (a : Address) : Unbroken a.text := by
  have hoctets : ∀ word, Unbroken (octetText word) := by
    intro word
    refine unbroken_separated (by decide) fun text htext => ?_
    obtain ⟨n, -, rfl⟩ := List.mem_map.mp htext
    exact Decimal.unbroken_digits n
  have hgroups : ∀ gs : List Nat, (∀ g ∈ gs, g < 0x10000) →
      Unbroken (separated ':' (gs.map groupText)) := by
    intro gs hgs
    refine unbroken_separated (by decide) fun text htext => ?_
    obtain ⟨g, hg, rfl⟩ := List.mem_map.mp htext
    obtain ⟨-, -, hhex, -⟩ := groupText_spec (hgs g hg)
    exact fun c hc => le_of_isHex (hhex c hc)
  cases a with
  | v4 word => exact hoctets word
  | v6 word =>
    obtain ⟨-, hgs, -⟩ := groups_spec word
    rw [text]
    split
    · exact unbroken_append.mpr ⟨by simp +decide, hoctets _⟩
    · unfold groupsText
      dsimp only
      split
      · exact hgroups _ hgs
      · simp only [unbroken_append, unbroken_cons]
        exact ⟨hgroups _ fun g hg => hgs g (List.mem_of_mem_take hg), by decide, by decide,
          hgroups _ fun g hg => hgs g (List.mem_of_mem_drop hg)⟩

end Address

/-- The text of a link-layer address is unbroken. -/
theorem Mac.unbroken_text (m : Mac) : Unbroken m.text := by
  intro c hc
  rcases mem_text hc with rfl | ⟨n, hn, rfl⟩
  · decide
  · exact le_hexDigit n hn

/-- The text of a value in a table is unbroken, unless it is a text. -/
theorem Value.unbroken_tableText {v : Value} (h : v.type ≠ .string) : Unbroken v.tableText := by
  cases v with
  | u8 n => exact Decimal.unbroken_digits _
  | u16 n => exact Decimal.unbroken_digits _
  | u32 n => exact Decimal.unbroken_digits _
  | u64 n => exact Decimal.unbroken_digits _
  | f64 x => exact x.unbroken_fixedText 3
  | timestamp t => exact t.unbroken_text .millis (by decide)
  | addr a => exact a.unbroken_text
  | mac m => exact m.unbroken_text
  | string s => exact absurd rfl h
  | blob bytes => exact unbroken_hexBytes bytes

/-- The only cells of a table that can hold a line feed are those of texts. -/
theorem Value.exists_string_of_feed {v : Value} (h : '\n' ∈ v.tableText) :
    ∃ s : String, v = .string s ∧ '\n' ∈ s.toList := by
  by_cases htype : v.type = .string
  · cases v with
    | string s => exact ⟨s, rfl, h⟩
    | _ => cases htype
  · exact absurd h (unbroken_tableText htype).feed_notMem

namespace Json

/-- An escaped character is unbroken. -/
theorem unbroken_escapeChar (c : Char) : Unbroken (escapeChar c) := by
  unfold escapeChar
  repeat' split
  all_goals simp +decide
  · exact ⟨le_hexDigit _ (by omega), le_hexDigit _ (by omega)⟩
  · omega

/-- A printed text is unbroken, whatever the text holds. -/
theorem unbroken_printString (s : String) : Unbroken (printString s) := by
  have hescaped : Unbroken (s.toList.flatMap escapeChar) :=
    .flatMap fun c _ => unbroken_escapeChar c
  exact unbroken_append.mpr ⟨unbroken_cons.mpr ⟨by decide, hescaped⟩, by simp +decide⟩

/-- A printed number is unbroken. -/
theorem unbroken_printNumber (n : Number) : Unbroken (printNumber n) := by
  cases n with
  | integer i =>
    rw [printNumber, Decimal.signed]
    split
    · exact unbroken_cons.mpr ⟨by decide, Decimal.unbroken_digits _⟩
    · exact Decimal.unbroken_digits _
  | float x =>
    rw [printNumber]
    cases hx : x.isFinite with
    | true =>
      rw [Binary64.jsonText?_eq hx, Option.getD_some]
      exact x.unbroken_withSign x.unbroken_jsonMagnitude
    | false =>
      have hnone : x.jsonText? = none := by rw [Binary64.jsonText?, if_pos (by simp [hx])]
      rw [hnone]
      simp +decide

mutual

/-- A printed value is unbroken. -/
theorem unbroken_print (j : Json) : Unbroken (print j) := by
  cases j with
  | null => simp +decide [print]
  | bool b => cases b <;> simp +decide [print]
  | num n =>
    rw [print]
    exact unbroken_printNumber n
  | str s =>
    rw [print]
    exact unbroken_printString s
  | arr items =>
    cases items with
    | nil => simp +decide [print]
    | cons item rest =>
      rw [print, unbroken_append, unbroken_cons]
      exact ⟨⟨by decide, unbroken_print item⟩, unbroken_printItems rest⟩
  | obj members =>
    cases members with
    | nil => simp +decide [print]
    | cons m rest =>
      simp only [print, unbroken_append, unbroken_cons]
      exact ⟨⟨⟨by decide, unbroken_printString m.1⟩, by decide, unbroken_print m.2⟩,
        unbroken_printMembers rest⟩

/-- The items behind the first one are unbroken. -/
theorem unbroken_printItems (items : List Json) : Unbroken (printItems items) := by
  cases items with
  | nil => simp +decide [printItems]
  | cons item rest =>
    rw [printItems, unbroken_append, unbroken_cons]
    exact ⟨⟨by decide, unbroken_print item⟩, unbroken_printItems rest⟩

/-- The members behind the first one are unbroken. -/
theorem unbroken_printMembers (members : List (String × Json)) :
    Unbroken (printMembers members) := by
  cases members with
  | nil => simp +decide [printMembers]
  | cons m rest =>
    simp only [printMembers, unbroken_append, unbroken_cons]
    exact ⟨⟨⟨by decide, unbroken_printString m.1⟩, by decide, unbroken_print m.2⟩,
      unbroken_printMembers rest⟩

end

end Json

end FlowTally
