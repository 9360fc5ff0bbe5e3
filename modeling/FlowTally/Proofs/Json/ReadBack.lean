import FlowTally.Json.Printer
import FlowTally.Json.Reader
import FlowTally.Proofs.Json.NumberText
import Mathlib.Data.String.Basic

/-!
# Compact texts read back

The reader takes each printed part off the front of a text and stops right behind it: an
escaped character is one step, the digits of a word end where no digit, point or exponent
follows, and a member ends at a comma or a brace. So an object reads back member by member, as
what the texts of its members read back as. An object of texts and words whose members ascend
is therefore the value of its compact text. The fuel is counted in characters that are
printed, and every step prints at least one.
-/

namespace FlowTally.Json

open Decimal Text

/-- Four hexadecimal digits of a number below 256 read back. -/
theorem hexQuad?_hexDigits {n : Nat} (h : n < 256) (rest : List Char) :
    hexQuad? ('0' :: '0' :: hexDigit (n / 16) :: hexDigit (n % 16) :: rest) = some (n, rest) := by
  have hhigh := hexValue?_hexDigit (n / 16) (by omega)
  have hlow := hexValue?_hexDigit (n % 16) (by omega)
  have hzero : hexValue? '0' = some 0 := by decide
  have hsum : ((0 * 16 + 0) * 16 + n / 16) * 16 + n % 16 = n := by omega
  simp only [hexQuad?, hzero, hhigh, hlow, Option.bind_eq_bind, Option.bind_some, hsum]

/-- The reader takes an escaped character in one step. -/
theorem string?_escapeChar (fuel : Nat) (acc : List Char) (c : Char) (rest : List Char) :
    string? (fuel + 1) acc (escapeChar c ++ rest) = string? fuel (c :: acc) rest := by
  unfold escapeChar
  by_cases hquote : c = '"'
  · subst hquote
    rfl
  by_cases hslash : c = '\\'
  · subst hslash
    rfl
  by_cases hb : c = '\x08'
  · subst hb
    rfl
  by_cases hf : c = '\x0c'
  · subst hf
    rfl
  by_cases hn : c = '\n'
  · subst hn
    rfl
  by_cases hr : c = '\r'
  · subst hr
    rfl
  by_cases ht : c = '\t'
  · subst ht
    rfl
  simp only [if_neg hquote, if_neg hslash, if_neg hb, if_neg hf, if_neg hn, if_neg hr, if_neg ht]
  by_cases hcontrol : c.toNat < 0x20
  · have hescape : escape? ('u' :: '0' :: '0' :: hexDigit (c.toNat / 16) ::
        hexDigit (c.toNat % 16) :: rest) = some (c, rest) := by
      rw [escape?, unicodeEscape?, hexQuad?_hexDigits (by omega)]
      simp only [Option.bind_eq_bind, Option.bind_some]
      rw [if_neg (by omega), if_neg (by omega), Char.ofNat_toNat]
    rw [if_pos hcontrol]
    simp only [List.cons_append, List.nil_append, string?, hescape]
    rfl
  · rw [if_neg hcontrol, List.singleton_append, string?]
    rw [if_neg hquote, if_neg hslash, if_neg hcontrol]

/-- The reader takes an escaped text and its closing quote. -/
theorem string?_escaped {fuel : Nat} {cs : List Char} (h : cs.length < fuel) (acc rest : List Char) :
    string? fuel acc (cs.flatMap escapeChar ++ '"' :: rest) =
      some (String.ofList (acc.reverse ++ cs), rest) := by
  induction cs generalizing fuel acc with
  | nil =>
    obtain ⟨fuel, rfl⟩ := Nat.exists_eq_succ_of_ne_zero (Nat.ne_zero_of_lt h)
    simp [string?]
  | cons c cs ih =>
    obtain ⟨fuel, rfl⟩ := Nat.exists_eq_succ_of_ne_zero (Nat.ne_zero_of_lt h)
    rw [List.flatMap_cons, List.append_assoc, string?_escapeChar,
      ih (by rw [List.length_cons] at h; omega), List.reverse_cons, List.append_assoc,
      List.singleton_append]

/-- No escape is empty. -/
theorem length_escapeChar_pos (c : Char) : 0 < (escapeChar c).length := by
  unfold escapeChar
  repeat' split
  all_goals simp

/-- An escaped text is no shorter than the text. -/
theorem length_le_escaped (cs : List Char) : cs.length ≤ (cs.flatMap escapeChar).length := by
  induction cs with
  | nil => exact Nat.le_refl _
  | cons c cs ih =>
    have hpos := length_escapeChar_pos c
    rw [List.flatMap_cons, List.length_append, List.length_cons]
    omega

/-- The reader takes a printed text behind its opening quote. -/
theorem string?_printString {fuel : Nat} {s : String} (h : (printString s).length ≤ fuel)
    (rest : List Char) :
    string? fuel [] (s.toList.flatMap escapeChar ++ '"' :: rest) = some (s, rest) := by
  have hlength := length_le_escaped s.toList
  simp only [printString, List.length_append, List.length_cons, List.length_nil] at h
  rw [string?_escaped (by omega), List.reverse_nil, List.nil_append, String.ofList_toList]

/-- A printed text tells the text. -/
theorem printString_injective {s t : String} (h : printString s = printString t) : s = t := by
  have hbody : s.toList.flatMap escapeChar ++ '"' :: [] = t.toList.flatMap escapeChar ++ '"' :: [] :=
    (List.cons.inj h).2
  have hs := string?_printString (le_refl (printString s).length) []
  have ht := string?_printString (le_refl (printString t).length) []
  rw [hbody, h, ht] at hs
  exact (Prod.mk.inj (Option.some.inj hs)).1.symm

/-- A text or a word. -/
def IsScalar : Json → Prop
  | .str _ => True
  | .num (.integer i) => 0 ≤ i ∧ i < UInt64.size
  | _ => False

/-- A printed text in front of others. -/
theorem printString_append (s : String) (rest : List Char) :
    printString s ++ rest = '"' :: (s.toList.flatMap escapeChar ++ '"' :: rest) := by
  simp [printString]

/-- A word is printed as its digits. -/
theorem print_word (n : Nat) : print (.num (.integer n)) = digits n := by
  rw [print, printNumber, signed, if_neg (by omega), Int.natAbs_natCast]

/-- A text or a word is a printed text or digits. -/
theorem IsScalar.cases {j : Json} (hj : j.IsScalar) :
    (∃ s, j = .str s ∧ print j = printString s) ∨
      ∃ n : Nat, n < UInt64.size ∧ j = .num (.integer n) ∧ print j = digits n := by
  cases j with
  | str s => exact .inl ⟨s, rfl, by rw [print]⟩
  | num n =>
    cases n with
    | float x => exact hj.elim
    | integer i =>
      obtain ⟨hnonneg, hlt⟩ := hj
      obtain ⟨n, rfl⟩ := Int.eq_ofNat_of_zero_le hnonneg
      exact .inr ⟨n, by omega, rfl, print_word n⟩
  | _ => exact hj.elim

/-- A character that is no gap stays in front. -/
theorem skipGap_cons {c : Char} (hc : isGap c = false) (cs : List Char) :
    skipGap (c :: cs) = c :: cs :=
  List.dropWhile_cons_of_neg (by simp [hc])

/-- The text of one value reads back as another one, wherever a number may end, and it starts with
no gap. -/
structure ReadsAs (j k : Json) : Prop where
  /-- The value is read from the text. -/
  value?_eq : ∀ {fuel depth : Nat} {rest : List Char}, (print j).length < fuel → EndsNumber rest →
    value? fuel depth (print j ++ rest) = some (k, rest)
  /-- The text starts with no gap. -/
  skipGap_eq : ∀ rest : List Char, skipGap (print j ++ rest) = print j ++ rest

/-- What the text of a value reads back as. -/
def readBack (j : Json) : Json := ((value? ((print j).length + 1) 0 (print j)).map (·.1)).getD .null

/-- There is one value that a text reads back as. -/
theorem ReadsAs.readBack_eq {j k : Json} (h : ReadsAs j k) : readBack j = k := by
  have hends : EndsNumber [] := fun c hc => by cases hc
  have hvalue : value? ((print j).length + 1) 0 (print j ++ []) = some (k, []) :=
    h.value?_eq (Nat.lt_succ_self _) hends
  rw [List.append_nil] at hvalue
  rw [readBack, hvalue]
  rfl

/-- Null reads back. -/
theorem readsAs_null : ReadsAs .null .null where
  value?_eq := by
    intro fuel depth rest hfuel _
    obtain ⟨fuel, rfl⟩ := Nat.exists_eq_succ_of_ne_zero (Nat.ne_zero_of_lt hfuel)
    rw [print]
    rfl
  skipGap_eq rest := by
    rw [print]
    exact skipGap_cons (by decide) _

/-- A text reads back. -/
theorem readsAs_str (s : String) : ReadsAs (.str s) (.str s) where
  value?_eq := by
    intro fuel depth rest hfuel _
    obtain ⟨fuel, rfl⟩ := Nat.exists_eq_succ_of_ne_zero (Nat.ne_zero_of_lt hfuel)
    rw [print] at hfuel ⊢
    rw [printString_append, value?, string?_printString (by omega)]
    rfl
  skipGap_eq rest := by
    rw [print, printString_append]
    exact skipGap_cons (by decide) _

/-- A number reads back as the number that its text is. The text starts with a digit or a minus
sign. -/
theorem readsAs_num {n m : Number}
    (hread : ∀ rest, EndsNumber rest → Number.read? (printNumber n ++ rest) = some (m, rest))
    (hhead : ∃ c cs, printNumber n = c :: cs ∧ (isDigit c = true ∨ c = '-')) :
    ReadsAs (.num n) (.num m) := by
  obtain ⟨c, cs, htext, hc⟩ := hhead
  have hne : ∀ d : Char, isDigit d = false → d ≠ '-' → c ≠ d := by
    rintro d hd hminus rfl
    rcases hc with hc | rfl
    · rw [hc] at hd
      cases hd
    · exact hminus rfl
  constructor
  · intro fuel depth rest hfuel hrest
    obtain ⟨fuel, rfl⟩ := Nat.exists_eq_succ_of_ne_zero (Nat.ne_zero_of_lt hfuel)
    have hnumber := hread rest hrest
    rw [htext, List.cons_append] at hnumber
    rw [print, htext, List.cons_append]
    unfold value?
    -- No digit and no minus sign starts a value of another kind.
    split
    · next heq => exact absurd (List.cons.inj heq).1 (hne _ (by decide) (by decide))
    · next heq => exact absurd (List.cons.inj heq).1 (hne _ (by decide) (by decide))
    · next heq => exact absurd (List.cons.inj heq).1 (hne _ (by decide) (by decide))
    · next heq => exact absurd (List.cons.inj heq).1 (hne _ (by decide) (by decide))
    · next heq => exact absurd (List.cons.inj heq).1 (hne _ (by decide) (by decide))
    · next heq => exact absurd (List.cons.inj heq).1 (hne _ (by decide) (by decide))
    · rw [hnumber]
      rfl
  · intro rest
    rw [print, htext, List.cons_append]
    refine skipGap_cons ?_ _
    simp only [isGap, Bool.or_eq_false_iff, decide_eq_false_iff_not]
    exact ⟨⟨⟨hne _ (by decide) (by decide), hne _ (by decide) (by decide)⟩,
      hne _ (by decide) (by decide)⟩, hne _ (by decide) (by decide)⟩

/-- A text or a word reads back. -/
theorem IsScalar.readsAs {j : Json} (hj : j.IsScalar) : ReadsAs j j := by
  rcases hj.cases with ⟨s, rfl, -⟩ | ⟨n, hn, rfl, hprint⟩
  · exact readsAs_str s
  · rw [print] at hprint
    refine readsAs_num (fun rest hrest => ?_) ?_
    · rw [hprint]
      exact read?_digits hn hrest
    · obtain ⟨c, ds, hdigits, hc⟩ := exists_digit_of_digits n
      exact ⟨c, ds, by rw [hprint, hdigits], .inl hc⟩

/-- A comma ends a number. -/
theorem endsNumber_comma (rest : List Char) : EndsNumber (',' :: rest) := by
  intro c hc
  obtain rfl := Option.some.inj hc
  decide

/-- A closing brace ends a number. -/
theorem endsNumber_brace (rest : List Char) : EndsNumber ('\x7d' :: rest) := by
  intro c hc
  obtain rfl := Option.some.inj hc
  decide

section

variable {name : String} {j k : Json} {fuel : Nat} (hj : ReadsAs j k)
    (hfuel : (printString name).length + (print j).length < fuel) (depth : Nat)

include hj hfuel

/-- A member in front of a comma is followed by others. -/
theorem members?_comma (rest : List Char) :
    members? (fuel + 1) depth (printString name ++ ':' :: (print j ++ ',' :: rest)) =
      (members? fuel depth (skipGap rest)).map fun (ms, rest) => ((name, k) :: ms, rest) := by
  rw [printString_append, members?, string?_printString (by omega)]
  simp only [skipGap_cons (show isGap ':' = false by decide), hj.skipGap_eq]
  rw [hj.value?_eq (by omega) (endsNumber_comma rest)]
  simp only [skipGap_cons (show isGap ',' = false by decide)]

/-- A member in front of a brace is the last one. -/
theorem members?_brace (rest : List Char) :
    members? (fuel + 1) depth (printString name ++ ':' :: (print j ++ '\x7d' :: rest)) =
      some ([(name, k)], rest) := by
  rw [printString_append, members?, string?_printString (by omega)]
  simp only [skipGap_cons (show isGap ':' = false by decide), hj.skipGap_eq]
  rw [hj.value?_eq (by omega) (endsNumber_brace rest)]
  simp only [skipGap_cons (show isGap '\x7d' = false by decide)]

end

section

-- What the text of a value reads back as.
variable {r : Json → Json}

/-- The members of an object read back from the first one on. -/
theorem members?_print {name : String} {j : Json} {more : List (String × Json)}
    (hj : ReadsAs j (r j)) (hmore : ∀ m ∈ more, ReadsAs m.2 (r m.2)) {fuel : Nat} (depth : Nat)
    (hfuel : (printString name ++ ':' :: print j ++ printMembers more).length < fuel)
    (rest : List Char) :
    members? fuel depth (printString name ++ ':' :: print j ++ printMembers more ++ rest) =
      some ((name, r j) :: more.map fun m => (m.1, r m.2), rest) := by
  induction more generalizing name j fuel with
  | nil =>
    obtain ⟨fuel, rfl⟩ := Nat.exists_eq_succ_of_ne_zero (Nat.ne_zero_of_lt hfuel)
    simp only [List.length_append, List.length_cons, printMembers, List.length_nil] at hfuel
    simp only [printMembers, List.append_assoc, List.cons_append, List.nil_append]
    exact members?_brace hj (by omega) depth rest
  | cons m more ih =>
    obtain ⟨fuel, rfl⟩ := Nat.exists_eq_succ_of_ne_zero (Nat.ne_zero_of_lt hfuel)
    simp only [printMembers, List.length_append, List.length_cons] at hfuel
    have hothers : (printString m.1 ++ ':' :: print m.2 ++ printMembers more).length < fuel := by
      simp only [List.length_append, List.length_cons]
      omega
    have hbehind := ih (hmore m List.mem_cons_self)
      (fun n hn => hmore n (List.mem_cons_of_mem m hn)) hothers
    simp only [printMembers, List.append_assoc, List.cons_append] at hbehind ⊢
    rw [members?_comma hj (by omega), printString_append,
      skipGap_cons (show isGap '"' = false by decide), ← printString_append, hbehind]
    rfl

/-- Behind its opening brace an object with members starts with a quote, and its members read
back. -/
theorem exists_body {m : String × Json} {more : List (String × Json)}
    (h : ∀ n ∈ m :: more, ReadsAs n.2 (r n.2)) :
    ∃ cs, print (.obj (m :: more)) = '\x7b' :: '"' :: cs ∧ ∀ {fuel : Nat} (depth : Nat),
      (print (.obj (m :: more))).length ≤ fuel →
        members? fuel depth ('"' :: cs) =
          some ((m :: more).map fun n => (n.1, r n.2), []) := by
  obtain ⟨hm, hmore⟩ := List.forall_mem_cons.mp h
  refine ⟨m.1.toList.flatMap escapeChar ++ '"' :: (':' :: (print m.2 ++ printMembers more)), ?_,
    fun depth hfuel => ?_⟩
  · simp only [print, printString, List.append_assoc, List.cons_append, List.nil_append]
  · have hlength : (printString m.1 ++ ':' :: print m.2 ++ printMembers more).length <
        (print (.obj (m :: more))).length := by
      simp only [print, List.length_append, List.length_cons]
      omega
    have hbody := members?_print hm hmore depth (hlength.trans_le hfuel) []
    rw [List.append_nil] at hbody
    simpa only [printString, List.append_assoc, List.cons_append, List.nil_append,
      List.map_cons] using hbody

/-- An object reads back as the object of what its members read back as. -/
theorem value?_obj {members : List (String × Json)} (h : ∀ m ∈ members, ReadsAs m.2 (r m.2))
    {fuel : Nat} (hfuel : (print (.obj members)).length ≤ fuel) (depth : Nat) :
    value? (fuel + 1) (depth + 1) (print (.obj members)) =
      some (ofMembers (members.map fun m => (m.1, r m.2)), []) := by
  cases members with
  | nil =>
    rw [print]
    rfl
  | cons m more =>
    obtain ⟨cs, htext, hbody⟩ := exists_body h
    rw [htext, value?]
    simp only [skipGap_cons (show isGap '"' = false by decide)]
    exact congrArg (Option.map fun (ms, rest) => (ofMembers ms, rest)) (hbody depth hfuel)

end

/-- Members that ascend stand in their object as they are. -/
theorem ofMembers_of_ascending {members : List (String × Json)} (h : Assoc.Ascending members) :
    ofMembers members = .obj members := by
  have hfold := @Assoc.Ascending.foldl_insert _ _ _ _ _ String.lt_irrefl String.lt_trans [] members h
  rw [ofMembers, hfold, List.nil_append]

/-- The members of an object ascend. They are the given ones, and each name has one of them. -/
theorem exists_ofMembers (members : List (String × Json)) :
    ∃ sorted, ofMembers members = .obj sorted ∧ Assoc.Ascending sorted ∧
      (∀ m ∈ sorted, m ∈ members) ∧ ∀ m ∈ members, ∃ j, (m.1, j) ∈ sorted := by
  have hascending := Assoc.Ascending.insertAll String.lt_trans
    (fun hnot hne => lt_of_le_of_ne (not_lt.mp hnot) hne) members List.Pairwise.nil
  refine ⟨_, rfl, hascending, fun m hm => ?_, fun m hm => ?_⟩
  · exact (Assoc.mem_of_mem_insertAll hm).resolve_left List.not_mem_nil
  · obtain ⟨j, hj⟩ := Assoc.exists_lookup_insertAll (.inr ⟨m, hm, rfl⟩)
    exact ⟨j, Assoc.mem_of_lookup hj⟩

/-- An object whose members ascend reads back member by member. -/
theorem read?_compact_of_readsAs {r : Json → Json} {members : List (String × Json)}
    (hascending : Assoc.Ascending members) (h : ∀ m ∈ members, ReadsAs m.2 (r m.2)) :
    read? (compact (.obj members)) = some (.obj (members.map fun m => (m.1, r m.2))) := by
  have hgap : skipGap (print (.obj members)) = print (.obj members) := by
    cases members with
    | nil =>
      rw [print]
      rfl
    | cons m more =>
      simp only [print, List.cons_append]
      exact skipGap_cons (by decide) _
  have hfuel : (print (.obj members)).length ≤ 2 * (print (.obj members)).length + 1 := by omega
  have hvalue := value?_obj h hfuel 126
  rw [read?, compact, String.toList_ofList, hgap, maxDepth]
  simp only [hvalue, ofMembers_of_ascending (hascending.map r)]
  rfl

/-- An object of texts and words whose members ascend is the value of its compact text. -/
theorem read?_compact {members : List (String × Json)} (hascending : Assoc.Ascending members)
    (hmembers : ∀ m ∈ members, m.2.IsScalar) :
    read? (compact (.obj members)) = some (.obj members) := by
  have hread := read?_compact_of_readsAs (r := id) hascending fun m hm => (hmembers m hm).readsAs
  simpa using hread

end FlowTally.Json
