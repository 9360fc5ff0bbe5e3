import FlowTally.Proofs.Record.Named
import FlowTally.Text.Size

/-!
# Which texts spell bytes

A byte is spelled by a piece of two characters: two hexadecimal digits of either case, or a plus sign
and one digit. A byte string is read from pieces that stand one behind the other, and a link-layer
address from six pieces with a colon or a hyphen between each two of them. Nothing else is read as
either, so a text without a plus sign is read exactly if all its pieces are two digits.
-/

namespace FlowTally

namespace Text

/-- A hexadecimal digit of either case with its value. -/
inductive HexDigit : Char → Nat → Prop where
  /-- The digits below ten. -/
  | decimal {n : Nat} (hn : n < 10) : HexDigit (Char.ofNat ('0'.toNat + n)) n
  /-- The digits from ten on as small letters. -/
  | lower {n : Nat} (hn : n < 6) : HexDigit (Char.ofNat ('a'.toNat + n)) (10 + n)
  /-- The digits from ten on as capital letters. -/
  | upper {n : Nat} (hn : n < 6) : HexDigit (Char.ofNat ('A'.toNat + n)) (10 + n)

/-- A piece of two digits with the byte that they spell, the high half first. -/
inductive TwoDigits : List Char → UInt8 → Prop where
  /-- Sixteen times the first digit and the second one. -/
  | mk {high low : Char} {h l : Nat} (hhigh : HexDigit high h) (hlow : HexDigit low l) :
    TwoDigits [high, low] (UInt8.ofNat (16 * h + l))

/-- A piece of a plus sign and a digit with the value of the digit. -/
inductive PlusDigit : List Char → UInt8 → Prop where
  /-- The digit alone counts. -/
  | mk {low : Char} {l : Nat} (hlow : HexDigit low l) : PlusDigit ['+', low] (UInt8.ofNat l)

/-- A piece spells a byte. -/
def Spells (piece : List Char) (b : UInt8) : Prop := TwoDigits piece b ∨ PlusDigit piece b

/-- Pieces with a colon or a hyphen between each two of them. -/
inductive Joined : List (List Char) → List Char → Prop where
  /-- One piece stands alone. -/
  | one (piece : List Char) : Joined [piece] piece
  /-- A separator stands between a piece and those behind it. -/
  | cons {pieces : List (List Char)} {cs : List Char} {sep : Char} (piece : List Char)
    (hsep : sep = ':' ∨ sep = '-') (hrest : Joined pieces cs) :
    Joined (piece :: pieces) (piece ++ sep :: cs)

/-- The digits are the characters that have a value. -/
theorem hexValue?_eq_some_iff {c : Char} {n : Nat} : hexValue? c = some n ↔ HexDigit c n := by
  constructor
  · intro h
    unfold hexValue? at h
    dsimp only at h
    split at h
    · next hc =>
      obtain rfl := Option.some.inj h
      have hdigit := HexDigit.decimal (n := c.toNat - 48) (by omega)
      rwa [show '0'.toNat + (c.toNat - 48) = c.toNat from Nat.add_sub_cancel' hc.1,
        Char.ofNat_toNat] at hdigit
    · split at h
      · next hc =>
        obtain rfl := Option.some.inj h
        have hdigit := HexDigit.lower (n := c.toNat - 97) (by omega)
        rwa [show 'a'.toNat + (c.toNat - 97) = c.toNat from Nat.add_sub_cancel' hc.1,
          show 10 + (c.toNat - 97) = c.toNat - 87 by omega, Char.ofNat_toNat] at hdigit
      · split at h
        · next hc =>
          obtain rfl := Option.some.inj h
          have hdigit := HexDigit.upper (n := c.toNat - 65) (by omega)
          rwa [show 'A'.toNat + (c.toNat - 65) = c.toNat from Nat.add_sub_cancel' hc.1,
            show 10 + (c.toNat - 65) = c.toNat - 55 by omega, Char.ofNat_toNat] at hdigit
        · cases h
  · have hdecimal : ∀ n < 10, hexValue? (Char.ofNat ('0'.toNat + n)) = some n := by decide
    have hlower : ∀ n < 6, hexValue? (Char.ofNat ('a'.toNat + n)) = some (10 + n) := by decide
    have hupper : ∀ n < 6, hexValue? (Char.ofNat ('A'.toNat + n)) = some (10 + n) := by decide
    intro h
    cases h with
    | decimal hn => exact hdecimal _ hn
    | lower hn => exact hlower _ hn
    | upper hn => exact hupper _ hn

/-- No digit is a plus sign, and each takes one byte. -/
theorem HexDigit.ne_plus {c : Char} {n : Nat} (h : HexDigit c n) : c ≠ '+' ∧ c.utf8Size = 1 := by
  have hdecimal : ∀ n < 10, Char.ofNat ('0'.toNat + n) ≠ '+' ∧
      (Char.ofNat ('0'.toNat + n)).utf8Size = 1 := by decide
  have hlower : ∀ n < 6, Char.ofNat ('a'.toNat + n) ≠ '+' ∧
      (Char.ofNat ('a'.toNat + n)).utf8Size = 1 := by decide
  have hupper : ∀ n < 6, Char.ofNat ('A'.toNat + n) ≠ '+' ∧
      (Char.ofNat ('A'.toNat + n)).utf8Size = 1 := by decide
  cases h with
  | decimal hn => exact hdecimal _ hn
  | lower hn => exact hlower _ hn
  | upper hn => exact hupper _ hn

/-- Behind a plus sign a digit is read as its value. -/
theorem hexPair?_plus (low : Char) : hexPair? '+' low = (hexValue? low).map UInt8.ofNat := by
  cases hlow : hexValue? low with
  | none => simp [hexPair?, hlow]
  | some l => simp [hexPair?, hlow]

/-- Any other piece is read as two digits. -/
theorem hexPair?_of_ne {high : Char} (h : high ≠ '+') (low : Char) :
    hexPair? high low =
      (hexValue? high).bind fun h => (hexValue? low).map fun l => UInt8.ofNat (16 * h + l) := by
  rw [hexPair?, if_neg h]
  cases hexValue? high with
  | none => rfl
  | some h =>
    cases hexValue? low with
    | none => rfl
    | some l => rfl

/-- A piece is read as the byte that it spells. -/
theorem hexPair?_eq_some_iff {high low : Char} {b : UInt8} :
    hexPair? high low = some b ↔ Spells [high, low] b := by
  constructor
  · intro h
    by_cases hplus : high = '+'
    · rw [hplus, hexPair?_plus] at h
      obtain ⟨l, hlow, rfl⟩ := Option.map_eq_some_iff.mp h
      rw [hplus]
      exact .inr (.mk (hexValue?_eq_some_iff.mp hlow))
    · rw [hexPair?_of_ne hplus] at h
      obtain ⟨n, hhigh, h⟩ := Option.bind_eq_some_iff.mp h
      obtain ⟨l, hlow, rfl⟩ := Option.map_eq_some_iff.mp h
      exact .inl (.mk (hexValue?_eq_some_iff.mp hhigh) (hexValue?_eq_some_iff.mp hlow))
  · intro h
    rcases h with hdigits | hplus
    · cases hdigits with
      | mk hhigh hlow =>
        rw [hexPair?_of_ne hhigh.ne_plus.1, hexValue?_eq_some_iff.mpr hhigh, Option.bind_some,
          hexValue?_eq_some_iff.mpr hlow, Option.map_some]
    · cases hplus with
      | mk hlow => rw [hexPair?_plus, hexValue?_eq_some_iff.mpr hlow, Option.map_some]

/-- A piece that spells a byte is two characters of one byte each. -/
theorem Spells.exists_pair {piece : List Char} {b : UInt8} (h : Spells piece b) :
    ∃ high low, piece = [high, low] ∧ high.utf8Size = 1 ∧ low.utf8Size = 1 := by
  rcases h with hdigits | hplus
  · cases hdigits with
    | mk hhigh hlow => exact ⟨_, _, rfl, hhigh.ne_plus.2, hlow.ne_plus.2⟩
  · cases hplus with
    | mk hlow => exact ⟨_, _, rfl, by decide, hlow.ne_plus.2⟩

/-- Pieces one behind the other are read as the bytes that they spell, from any offset. -/
theorem readHexPairs_eq_ok_iff {offset : Nat} {cs : List Char} {bytes : List UInt8} :
    readHexPairs offset cs = .ok bytes ↔
      ∃ pieces, cs = pieces.flatten ∧ List.Forall₂ Spells pieces bytes := by
  constructor
  · intro h
    induction offset, cs using readHexPairs.induct generalizing bytes with
    | case1 offset =>
      obtain rfl := Except.ok.inj h
      exact ⟨[], rfl, .nil⟩
    | case2 offset c => cases h
    | case3 offset high low rest hnone =>
      rw [readHexPairs, hnone] at h
      cases h
    | case4 offset high low rest b hb bytes' hrest ih =>
      rw [readHexPairs, hb] at h
      simp only [hrest] at h
      obtain rfl := Except.ok.inj h
      obtain ⟨pieces, rfl, hspells⟩ := ih hrest
      exact ⟨[high, low] :: pieces, rfl, .cons (hexPair?_eq_some_iff.mp hb) hspells⟩
    | case5 offset high low rest b hb e hrest ih =>
      rw [readHexPairs, hb] at h
      simp only [hrest] at h
      cases h
  · rintro ⟨pieces, rfl, hspells⟩
    induction hspells generalizing offset with
    | nil => rfl
    | cons hone _ ih =>
      obtain ⟨high, low, rfl, -, -⟩ := hone.exists_pair
      rw [List.flatten_cons, List.cons_append, List.cons_append, List.nil_append, readHexPairs,
        hexPair?_eq_some_iff.mpr hone]
      simp only [ih]

/-- Pieces that spell bytes have twice as many characters, each of one byte. -/
theorem length_of_spells {pieces : List (List Char)} {bytes : List UInt8}
    (h : List.Forall₂ Spells pieces bytes) :
    pieces.flatten.length = 2 * bytes.length ∧ ∀ c ∈ pieces.flatten, c.utf8Size = 1 := by
  induction h with
  | nil => exact ⟨rfl, fun c hc => absurd hc List.not_mem_nil⟩
  | cons hone _ ih =>
    obtain ⟨high, low, rfl, hhigh, hlow⟩ := hone.exists_pair
    constructor
    · simp only [List.flatten_cons, List.length_append, List.length_cons, List.length_nil, ih.1]
      omega
    · intro c hc
      rcases List.mem_append.mp hc with hc | hc
      · rcases List.mem_pair.mp hc with rfl | rfl
        · exact hhigh
        · exact hlow
      · exact ih.2 c hc

/-- A byte string is read from pieces that spell its bytes, and from nothing else. -/
theorem readHex_eq_ok_iff {s : String} {bytes : List UInt8} :
    readHex s = .ok bytes ↔
      ∃ pieces, s.toList = pieces.flatten ∧ List.Forall₂ Spells pieces bytes := by
  unfold readHex
  constructor
  · intro h
    split at h
    · cases h
    · exact readHexPairs_eq_ok_iff.mp h
  · intro h
    obtain ⟨pieces, hs, hspells⟩ := h
    obtain ⟨hlength, hbyte⟩ := length_of_spells hspells
    have hsize : s.utf8ByteSize = 2 * bytes.length := by
      rw [← String.ofList_toList (s := s), utf8ByteSize_ofList, hs, byteSize_eq_length hbyte, hlength]
    rw [if_neg (by omega)]
    exact readHexPairs_eq_ok_iff.mpr ⟨pieces, hs, hspells⟩

/-- Two digits hold no plus sign. -/
theorem TwoDigits.plus_notMem {piece : List Char} {b : UInt8} (h : TwoDigits piece b) :
    '+' ∉ piece := by
  obtain ⟨hhigh, hlow⟩ := h
  intro hmem
  rcases List.mem_pair.mp hmem with heq | heq
  · exact hhigh.ne_plus.1 heq.symm
  · exact hlow.ne_plus.1 heq.symm

/-- Pieces of two digits hold no plus sign. -/
theorem plus_notMem_of_twoDigits {pieces : List (List Char)} {bytes : List UInt8}
    (h : List.Forall₂ TwoDigits pieces bytes) : '+' ∉ pieces.flatten := by
  induction h with
  | nil => exact List.not_mem_nil
  | cons hone _ ih =>
    rw [List.flatten_cons, List.mem_append, not_or]
    exact ⟨hone.plus_notMem, ih⟩

/-- Without a plus sign the pieces are all of two digits. -/
theorem twoDigits_of_plus_notMem {pieces : List (List Char)} {bytes : List UInt8}
    (hplus : '+' ∉ pieces.flatten) (h : List.Forall₂ Spells pieces bytes) :
    List.Forall₂ TwoDigits pieces bytes := by
  induction h with
  | nil => exact .nil
  | cons hone _ ih =>
    rw [List.flatten_cons, List.mem_append, not_or] at hplus
    refine .cons (hone.resolve_right fun hdigit => ?_) (ih hplus.2)
    cases hdigit
    exact hplus.1 List.mem_cons_self

/-- Joined pieces hold the characters of the pieces, and separators. -/
theorem Joined.mem_flatten_iff {pieces : List (List Char)} {cs : List Char} (h : Joined pieces cs)
    {c : Char} (hcolon : c ≠ ':') (hhyphen : c ≠ '-') : c ∈ pieces.flatten ↔ c ∈ cs := by
  induction h with
  | one piece => rw [List.flatten_singleton]
  | cons piece hsep _ ih =>
    have hne : c ≠ _ := fun heq => hsep.elim (fun h => hcolon (heq.trans h))
      fun h => hhyphen (heq.trans h)
    rw [List.flatten_cons, List.mem_append, List.mem_append, List.mem_cons, ih]
    simp only [hne, false_or]

end Text

namespace Mac

open Text

/-- Joined pieces are read as the bytes that they spell. -/
theorem readPairs_eq_some_iff {cs : List Char} {bytes : List UInt8} :
    readPairs cs = some bytes ↔ ∃ pieces, Joined pieces cs ∧ List.Forall₂ Spells pieces bytes := by
  constructor
  · intro h
    induction cs using readPairs.induct generalizing bytes with
    | case1 high low =>
      obtain ⟨b, hb, rfl⟩ := Option.map_eq_some_iff.mp h
      exact ⟨_, .one _, .cons (hexPair?_eq_some_iff.mp hb) .nil⟩
    | case2 high low sep rest hsep ih =>
      rw [readPairs, if_pos hsep] at h
      obtain ⟨b, hb, h⟩ := Option.bind_eq_some_iff.mp h
      obtain ⟨others, hrest, h⟩ := Option.bind_eq_some_iff.mp h
      obtain rfl := Option.some.inj h
      obtain ⟨pieces, hjoined, hspells⟩ := ih hrest
      exact ⟨_, .cons [high, low] hsep hjoined, .cons (hexPair?_eq_some_iff.mp hb) hspells⟩
    | case3 high low sep rest hsep =>
      rw [readPairs, if_neg hsep] at h
      cases h
    | case4 cs hshort hlong =>
      rw [readPairs] at h
      · cases h
      · exact hshort
      · exact hlong
  · rintro ⟨pieces, hjoined, hspells⟩
    induction hjoined generalizing bytes with
    | one piece =>
      cases hspells with
      | cons hone hnil =>
        cases hnil
        obtain ⟨high, low, rfl, -, -⟩ := hone.exists_pair
        rw [readPairs, hexPair?_eq_some_iff.mpr hone, Option.map_some]
    | cons piece hsep _ ih =>
      cases hspells with
      | cons hone hrest =>
        obtain ⟨high, low, rfl, -, -⟩ := hone.exists_pair
        simp only [List.cons_append, List.nil_append, readPairs, if_pos hsep,
          hexPair?_eq_some_iff.mpr hone, ih hrest, Option.bind_eq_bind, Option.bind_some]

/-- An address is read from pieces that spell its bytes, and from nothing else. -/
theorem read_eq_ok_iff {s : String} {m : Mac} :
    read s = .ok m ↔
      ∃ pieces, Joined pieces s.toList ∧ List.Forall₂ Spells pieces m.bytes := by
  have hbytes : ∀ bytes, ofBytes? bytes = some m ↔ bytes = m.bytes := by
    intro bytes
    unfold ofBytes?
    constructor
    · intro h
      split at h
      · exact congrArg Mac.bytes (Option.some.inj h)
      · cases h
    · rintro rfl
      exact dif_pos m.length_eq
  have hread : read s = .ok m ↔ (readPairs s.toList).bind ofBytes? = some m := by
    unfold read
    split
    · next n hn => rw [hn, Except.ok.injEq, Option.some.injEq]
    · next hn => simp [hn]
  rw [hread, Option.bind_eq_some_iff, ← readPairs_eq_some_iff]
  simp only [hbytes, exists_eq_right]

end Mac

namespace FieldId

variable {f : FieldId}

/-- A field of byte strings is no pair. -/
theorem isPair_of_blob (h : f.type? = some .blob) : f.isPair = false := by
  have hpairs : ∀ x ∈ pairs, x.1.type? ≠ some .blob := by decide
  by_contra hpair
  obtain ⟨x, hx, rfl, -⟩ := exists_mem_pairs (Bool.not_eq_false _ ▸ hpair)
  exact hpairs x hx h

/-- A field of byte strings takes a text as the bytes that it is read as. -/
theorem reading?_blob (h : f.type? = some .blob) (s : String) :
    f.reading? (.str s) = ((Text.readHex s).toOption).map .blob := by
  rw [reading?, h, Option.bind_some]
  simp only [Value.ofJson, Value.textOf, bind, Except.bind]
  cases Text.readHex s with
  | ok bytes => rfl
  | error e => rfl

end FieldId

namespace Record

open Text

variable {f : FieldId} {s : String} {bytes : List UInt8}

/-- The line that gives a text to a field and names no other one. -/
def textLine (f : FieldId) (s : String) : String := (Json.obj [(f.name, .str s)]).compact

/-- A line that gives a text to a field of byte strings is read only if the text is, and the field
then shows the bytes. -/
theorem get_of_textMember (hf : f.type? = some .blob) {line : String} {r : Record}
    (h : ofLine line = .ok r) {ms : List (String × Json)} (hms : Json.writtenMembers? line = some ms)
    (hlast : Json.lastNamed? f.name ms = some (.str s)) :
    ∃ bytes, readHex s = .ok bytes ∧ r.get f = .ok (.blob bytes) := by
  obtain ⟨ms', hms', hgives⟩ := gives_of_ofLine h
  obtain rfl : ms = ms' := Option.some.inj (hms.symm.trans hms')
  have hname : FieldId.ofName? f.name = some f := FieldId.ofName?_name (by rw [hf]; rfl)
  obtain ⟨g, v, hg, -, hgiven⟩ := hgives.named f.name _ hlast (by simp)
  obtain rfl : f = g := Option.some.inj (hname.symm.trans hg)
  have hfront : f ∉ FieldId.frontSides := by
    have hsides : ∀ g ∈ FieldId.frontSides, g.type? ≠ some .blob := by decide
    exact fun hmem => hsides f hmem hf
  have hget := hgives.get_of_given (FieldId.isPair_of_blob hf) hgiven fun hmem => absurd hmem hfront
  rw [given?, hlast, Option.bind_some, FieldId.reading?_blob hf] at hgiven
  obtain ⟨bytes, hread, rfl⟩ := Option.map_eq_some_iff.mp hgiven
  refine ⟨bytes, ?_, hget⟩
  cases hhex : readHex s with
  | ok bytes' =>
    rw [hhex] at hread
    exact congrArg Except.ok (Option.some.inj hread)
  | error e =>
    rw [hhex] at hread
    cases hread

/-- A text that is read as bytes is taken as a member of a field of byte strings. -/
theorem exists_addMember_text (hf : f.type? = some .blob) (h : readHex s = .ok bytes) {r : Record}
    (ha : r.allocated = true) :
    ∃ r' : Record, r.addMember f.name (.str s) = .ok r' ∧ r'.get f = .ok (.blob bytes) := by
  have hcatalog : f.type?.isSome = true := by rw [hf]; rfl
  have htype : f.type? = some (Value.blob bytes).type := hf
  obtain ⟨r', hset, hr', hcells⟩ := exists_set ha htype
  refine ⟨r', ?_, ?_⟩
  · simp only [addMember, FieldId.ofName?_name hcatalog, hf, Value.ofJson, Value.textOf, bind,
      Except.bind, h, hset]
  · rw [get_eq hr' hcatalog, hcells, Cells.lookup_store, if_pos (cellOf_mem_cells f)]
    rfl

/-- The line that gives such a text to the field is read. -/
theorem exists_ofLine_textLine (hf : f.type? = some .blob) (h : readHex s = .ok bytes) :
    ∃ r, ofLine (textLine f s) = .ok r ∧ r.get f = .ok (.blob bytes) := by
  obtain ⟨r, hadd, hget⟩ := exists_addMember_text hf h (r := empty) rfl
  have hread : Json.read? (textLine f s) = some (.obj [(f.name, .str s)]) :=
    Json.read?_compact (List.pairwise_singleton _ _) (List.forall_mem_singleton.mpr trivial)
  refine ⟨r, ?_, hget⟩
  simp only [ofLine, hread, ofJson, addMembers, hadd]

/-- A text is read as bytes exactly if it is made of pieces that spell bytes. A link-layer address is
read from pieces with a colon or a hyphen between each two of them. A line that gives the text to a
field of byte strings is read only if the pieces of the text stand one behind the other, and the
field then shows their bytes; and such a text is taken, by any record with storage and in a line of
its own. A piece is two hexadecimal digits, unless it has a plus sign in place of the first one: in
a text without a plus sign, all pieces are two digits. -/
theorem hex_texts_read (s : String) :
    (∀ m : Mac, Mac.read s = .ok m ↔
      ∃ pieces, Joined pieces s.toList ∧ List.Forall₂ Spells pieces m.bytes) ∧
    (∀ f : FieldId, f.type? = some .blob →
      (∀ line r ms, ofLine line = .ok r → Json.writtenMembers? line = some ms →
        Json.lastNamed? f.name ms = some (.str s) →
        ∃ bytes pieces, s.toList = pieces.flatten ∧ List.Forall₂ Spells pieces bytes ∧
          r.get f = .ok (.blob bytes)) ∧
      ∀ pieces bytes, s.toList = pieces.flatten → List.Forall₂ Spells pieces bytes →
        (∀ r : Record, r.allocated = true → ∃ r' : Record,
          r.addMember f.name (.str s) = .ok r' ∧ r'.get f = .ok (.blob bytes)) ∧
        ∃ r, ofLine (textLine f s) = .ok r ∧ r.get f = .ok (.blob bytes)) ∧
    ('+' ∉ s.toList → ∀ pieces bytes, Joined pieces s.toList ∨ s.toList = pieces.flatten →
      (List.Forall₂ Spells pieces bytes ↔ List.Forall₂ TwoDigits pieces bytes)) := by
  refine ⟨fun m => Mac.read_eq_ok_iff, fun f hf => ⟨?_, ?_⟩, fun hplus pieces bytes hpieces => ?_⟩
  · intro line r ms h hms hlast
    obtain ⟨bytes, hread, hget⟩ := get_of_textMember hf h hms hlast
    obtain ⟨pieces, hs, hspells⟩ := readHex_eq_ok_iff.mp hread
    exact ⟨bytes, pieces, hs, hspells, hget⟩
  · intro pieces bytes hs hspells
    have hread : readHex s = .ok bytes := readHex_eq_ok_iff.mpr ⟨pieces, hs, hspells⟩
    exact ⟨fun r ha => exists_addMember_text hf hread ha, exists_ofLine_textLine hf hread⟩
  · have hnone : '+' ∉ pieces.flatten := by
      rcases hpieces with hjoined | hs
      · rwa [hjoined.mem_flatten_iff (by decide) (by decide)]
      · rwa [← hs]
    exact ⟨twoDigits_of_plus_notMem hnone, fun h => h.imp fun _ _ => .inl⟩

/-- The field of the label stack, which is a byte string. -/
def labelStack : FieldId := ⟨0x26⟩

/-- A line with two texts for the label stack, of which the second counts. -/
def labelLine : String := "\x7b\"mpls\":\"0g\",\"srcport\":80,\"mpls\":\"0aF7\"\x7d"

/-- Digits of both cases and both separators are read, alone and in a line with other members. -/
theorem hex_texts_read_labels :
    (∃ m, Mac.read "00:1A-2b:3c:4d:5E" = .ok m ∧
      ∃ pieces, Joined pieces "00:1A-2b:3c:4d:5E".toList ∧ List.Forall₂ Spells pieces m.bytes) ∧
    (∃ r pieces bytes, ofLine labelLine = .ok r ∧ "0aF7".toList = pieces.flatten ∧
      List.Forall₂ TwoDigits pieces bytes ∧ r.get labelStack = .ok (.blob bytes)) ∧
    ∃ r, ofLine (textLine labelStack "0aF7") = .ok r ∧
      r.get labelStack = .ok (.blob [0x0a, 0xf7]) := by
  have htype : labelStack.type? = some .blob := by decide
  obtain ⟨-, hblob, hplus⟩ := hex_texts_read "0aF7"
  refine ⟨?_, ?_, ?_⟩
  · have hread : (Mac.read "00:1A-2b:3c:4d:5E").toOption.isSome = true := by decide
    cases hm : Mac.read "00:1A-2b:3c:4d:5E" with
    | ok m => exact ⟨m, rfl, ((hex_texts_read _).1 m).mp hm⟩
    | error e =>
      rw [hm] at hread
      cases hread
  · have hline : ofLine labelLine = .ok _ := ofLine_of_isSome (by cbv)
    obtain ⟨ms, hms, -⟩ := gives_of_ofLine hline
    have hlast : (Json.writtenMembers? labelLine).bind (Json.lastNamed? labelStack.name) =
        some (.str "0aF7") := by cbv
    rw [hms, Option.bind_some] at hlast
    obtain ⟨bytes, pieces, hs, hspells, hget⟩ := (hblob _ htype).1 _ _ _ hline hms hlast
    have hdigits := (hplus (by decide) pieces bytes (.inr hs)).mp hspells
    exact ⟨_, pieces, bytes, hline, hs, hdigits, hget⟩
  · have hread : readHex "0aF7" = .ok [0x0a, 0xf7] := by decide
    obtain ⟨pieces, hs, hspells⟩ := readHex_eq_ok_iff.mp hread
    exact ((hblob _ htype).2 pieces _ hs hspells).2

/-- A plus sign stands in for the first digit of a piece: an address and a byte string are read that
are not made of pieces of two digits. -/
theorem plus_sign_read :
    (∃ m, Mac.read "+0:1a:2b:3c:4d:5e" = .ok m ∧
      ¬∃ pieces, Joined pieces "+0:1a:2b:3c:4d:5e".toList ∧
        List.Forall₂ TwoDigits pieces m.bytes) ∧
    ∃ r, ofLine (textLine labelStack "+f") = .ok r ∧
      r.get labelStack = .ok (.blob [0x0f]) ∧
      ¬∃ pieces, "+f".toList = pieces.flatten ∧ List.Forall₂ TwoDigits pieces [0x0f] := by
  constructor
  · refine ⟨⟨[0x00, 0x1a, 0x2b, 0x3c, 0x4d, 0x5e], rfl⟩, by decide, ?_⟩
    rintro ⟨pieces, hjoined, hdigits⟩
    have hplus : '+' ∈ "+0:1a:2b:3c:4d:5e".toList := by decide
    rw [← hjoined.mem_flatten_iff (by decide) (by decide)] at hplus
    exact plus_notMem_of_twoDigits hdigits hplus
  · have hread : readHex "+f" = .ok [0x0f] := by decide
    obtain ⟨r, hline, hget⟩ := exists_ofLine_textLine (f := labelStack) (by decide) hread
    refine ⟨r, hline, hget, ?_⟩
    rintro ⟨pieces, hs, hdigits⟩
    exact plus_notMem_of_twoDigits hdigits (hs ▸ by decide)

end Record

end FlowTally
