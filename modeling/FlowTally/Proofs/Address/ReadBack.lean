import FlowTally.Address.Text
import FlowTally.Proofs.Decimal.Digits

/-!
# Written addresses read back

Each octet and each group reads back in front of anything that does not go on with
digits, and so do lists of them with separators. The run of zeros that is left out is the
one that is filled in when the text is read. So every address reads back from its text,
and its text tells it.
-/

namespace FlowTally.Address

open Decimal Text

/-- Texts with separators between them, from the first one on. -/
theorem separated_cons (sep : Char) (text : List Char) (texts : List (List Char)) :
    separated sep (text :: texts) = text ++ texts.flatMap (sep :: ·) := by
  induction texts generalizing text with
  | nil => simp [separated]
  | cons next rest ih =>
    rw [separated, ih, List.flatMap_cons, List.cons_append]
    exact List.cons_ne_nil _ _

/-- An octet reads back. -/
theorem octet?_digits {n : Nat} (hn : n ≤ 255) {rest : List Char}
    (hrest : rest.takeWhile isDigit = []) : octet? (digits n ++ rest) = some (n, rest) := by
  have htake : (digits n ++ rest).takeWhile isDigit = digits n := by
    rw [List.takeWhile_append_of_pos (isDigit_of_mem_digits n), hrest, List.append_nil]
  have hdrop : (digits n ++ rest).drop (digits n).length = rest := List.drop_left
  have hlength : (digits n).length ≤ 3 := length_digits_le (by omega) (by omega)
  have hshort : (if (digits n).length ≤ 3 ∧ ofDigits (digits n) ≤ 255 then
      some (ofDigits (digits n), (digits n ++ rest).drop (digits n).length) else none) =
      some (n, rest) := by
    rw [ofDigits_digits, if_pos ⟨hlength, hn⟩, hdrop]
  have hzero : ∀ d tail, digits n ≠ '0' :: d :: tail := by
    intro d tail h
    by_cases hten : 10 ≤ n
    · obtain ⟨c, rest, hdigits, hc, -⟩ := exists_head_digits hten
      rw [hdigits] at h
      exact hc (List.cons.inj h).1
    · rw [digits, if_pos (by omega)] at h
      exact absurd (List.cons.inj h).2 (List.cons_ne_nil _ _).symm
  unfold octet?
  rw [htake]
  split
  · next h => exact absurd h (digits_ne_nil n)
  · next h => exact absurd h (hzero _ _)
  · exact hshort

/-- The octets of a word make up that word. -/
theorem joinDigits_octets (word : BitVec 32) : joinDigits 8 (octets word) = word.toNat := by
  have hlt := word.isLt
  simp only [octets, joinDigits, List.foldl_cons, List.foldl_nil]
  omega

/-- Four octets read back. -/
theorem octets?_octetText (word : BitVec 32) {rest : List Char}
    (hrest : rest.takeWhile isDigit = []) :
    octets? (octetText word ++ rest) = some (word.toNat, rest) := by
  have hlt := word.isLt
  have hword := joinDigits_octets word
  obtain ⟨a, b, c, d, hoctets, ha, hb, hc, hd⟩ : ∃ a b c d, octets word = [a, b, c, d] ∧
      a ≤ 255 ∧ b ≤ 255 ∧ c ≤ 255 ∧ d ≤ 255 :=
    ⟨_, _, _, _, rfl, by omega, by omega, by omega, by omega⟩
  have hpoint : ∀ cs, ('.' :: cs).takeWhile isDigit = [] := fun _ => rfl
  have htext : octetText word ++ rest =
      digits a ++ '.' :: (digits b ++ '.' :: (digits c ++ '.' :: (digits d ++ rest))) := by
    simp [octetText, hoctets, separated]
  rw [htext, octets?]
  simp only [octet?_digits ha (hpoint _), octet?_digits hb (hpoint _), octet?_digits hc (hpoint _),
    octet?_digits hd hrest, Option.bind_eq_bind, Option.bind_some]
  rw [← hoctets, hword]

/-- Without a point there are no four octets. -/
theorem octets?_eq_none {cs : List Char} (h : '.' ∉ cs) : octets? cs = none := by
  unfold octets?
  cases hoctet : octet? cs with
  | none => rfl
  | some first =>
    obtain ⟨n, rest⟩ := first
    have hrest : ∃ k, rest = cs.drop k := by
      unfold octet? at hoctet
      split at hoctet
      · cases hoctet
      · cases hoctet
      · split at hoctet
        · obtain rfl := (Prod.mk.inj (Option.some.inj hoctet)).2
          exact ⟨_, rfl⟩
        · cases hoctet
    obtain ⟨k, rfl⟩ := hrest
    -- A further octet would need a point in front of it.
    simp only [Option.bind_eq_bind, Option.bind_some]
    split
    · next tail htail =>
      have hpoint : '.' ∈ cs.drop k := by
        rw [htail]
        exact List.mem_cons_self
      exact absurd (List.mem_of_mem_drop hpoint) h
    · rfl

/-- Whether a character is a hexadecimal digit. -/
def isHex (c : Char) : Bool := (hexValue? c).isSome

/-- The number that hexadecimal digits spell. -/
def ofHex (ds : List Char) : Nat := ds.foldl (fun n c => n * 16 + (hexValue? c).getD 0) 0

/-- Hexadecimal digits are written as such. -/
theorem isHex_hexDigit {n : Nat} (h : n < 16) : isHex (hexDigit n) = true := by
  rw [isHex, hexValue?_hexDigit n h]
  rfl

/-- A hexadecimal digit is no separator. -/
theorem ne_of_isHex {c : Char} (h : isHex c = true) : c ≠ '.' ∧ c ≠ ':' ∧ c ≠ ';' := by
  refine ⟨?_, ?_, ?_⟩ <;>
  · rintro rfl
    revert h
    decide

/-- Leading zeros do not count. -/
theorem ofHex_dropWhile_append (ds rest : List Char) :
    ofHex (ds.dropWhile (· = '0') ++ rest) = ofHex (ds ++ rest) := by
  induction ds with
  | nil => rfl
  | cons d ds ih =>
    by_cases hd : d = '0'
    · subst hd
      rw [List.dropWhile_cons_of_pos (by decide), ih]
      rfl
    · rw [List.dropWhile_cons_of_neg (by simpa using hd)]

/-- A group consists of one to four hexadecimal digits. -/
theorem groupText_spec {n : Nat} (hn : n < 0x10000) :
    groupText n ≠ [] ∧ (groupText n).length ≤ 4 ∧ (∀ c ∈ groupText n, isHex c = true) ∧
      ofHex (groupText n) = n := by
  have hhigh := hexValue?_hexDigit (n / 0x1000) (by omega)
  have hmiddle := hexValue?_hexDigit (n / 0x100 % 16) (by omega)
  have hlower := hexValue?_hexDigit (n / 0x10 % 16) (by omega)
  have hlast := hexValue?_hexDigit (n % 16) (by omega)
  have hfront : ∀ c ∈ [hexDigit (n / 0x1000), hexDigit (n / 0x100 % 16),
      hexDigit (n / 0x10 % 16)], isHex c = true := by
    intro c hc
    simp only [List.mem_cons, List.not_mem_nil, or_false] at hc
    rcases hc with rfl | rfl | rfl
    · exact isHex_hexDigit (by omega)
    · exact isHex_hexDigit (by omega)
    · exact isHex_hexDigit (by omega)
  have hlength := (List.dropWhile_suffix (fun c => decide (c = '0'))
    (l := [hexDigit (n / 0x1000), hexDigit (n / 0x100 % 16), hexDigit (n / 0x10 % 16)])).length_le
  refine ⟨by simp [groupText], ?_, ?_, ?_⟩
  · simp only [groupText, List.length_append, List.length_singleton]
    simp only [List.length_cons, List.length_nil] at hlength
    omega
  · intro c hc
    rcases List.mem_append.mp hc with hc | hc
    · exact hfront c ((List.dropWhile_suffix _).subset hc)
    · obtain rfl := List.mem_singleton.mp hc
      exact isHex_hexDigit (by omega)
  · rw [groupText, ofHex_dropWhile_append]
    simp only [ofHex, List.cons_append, List.nil_append, List.foldl_cons, List.foldl_nil, hhigh,
      hmiddle, hlower, hlast, Option.getD_some]
    omega

/-- A group reads back. -/
theorem group?_groupText {n : Nat} (hn : n < 0x10000) {rest : List Char}
    (hrest : rest.takeWhile isHex = []) : group? (groupText n ++ rest) = some (n, rest) := by
  obtain ⟨hne, hlength, hhex, hvalue⟩ := groupText_spec hn
  have htake : (groupText n ++ rest).takeWhile isHex = groupText n := by
    rw [List.takeWhile_append_of_pos hhex, hrest, List.append_nil]
  have hdrop : (groupText n ++ rest).drop (groupText n).length = rest := List.drop_left
  have hread : group? (groupText n ++ rest) =
      if (groupText n ++ rest).takeWhile isHex = [] ∨
          4 < ((groupText n ++ rest).takeWhile isHex).length then none
      else some (ofHex ((groupText n ++ rest).takeWhile isHex),
        (groupText n ++ rest).drop ((groupText n ++ rest).takeWhile isHex).length) := rfl
  rw [hread, htake, if_neg (by simp [hne]; omega), hvalue, hdrop]

/-- A group contains no point. -/
theorem point_not_mem_groupText {n : Nat} (hn : n < 0x10000) : '.' ∉ groupText n := by
  obtain ⟨-, -, hhex, -⟩ := groupText_spec hn
  exact fun hmem => (ne_of_isHex (hhex '.' hmem)).1 rfl

/-- What ends a list of groups: nothing more, or a double colon and no point behind it. -/
def EndsGroups (rest : List Char) : Prop :=
  '.' ∉ rest ∧ (rest = [] ∨ ∃ tail, rest = ':' :: ':' :: tail)

/-- The texts of groups, each behind a colon. -/
def colonGroups (gs : List Nat) : List Char := gs.flatMap fun g => ':' :: groupText g

/-- Groups behind colons contain no point. -/
theorem point_not_mem_colonGroups {gs : List Nat} (hgs : ∀ g ∈ gs, g < 0x10000) :
    '.' ∉ colonGroups gs := by
  intro hmem
  obtain ⟨g, hg, hmem⟩ := List.mem_flatMap.mp hmem
  rcases List.mem_cons.mp hmem with h | h
  · exact absurd h (by decide)
  · exact point_not_mem_groupText (hgs g hg) h

/-- Groups behind colons go on with no hexadecimal digit. -/
theorem takeWhile_colonGroups (gs : List Nat) {rest : List Char} (hrest : EndsGroups rest) :
    (colonGroups gs ++ rest).takeWhile isHex = [] := by
  cases gs with
  | nil =>
    rcases hrest.2 with rfl | ⟨tail, rfl⟩
    · rfl
    · rfl
  | cons g gs => rfl

/-- No group starts where a list of groups ends. -/
theorem groups?_of_ends (first : Bool) (room : Nat) {rest : List Char} (hrest : EndsGroups rest) :
    groups? first room rest = ([], false, rest) := by
  obtain ⟨hpoint, hrest⟩ := hrest
  cases room with
  | zero => rfl
  | succ room =>
    have hnone : ∀ cs, '.' ∉ cs → cs.takeWhile isHex = [] →
        (if room = 0 then none else octets? cs) = none ∧ group? cs = none := by
      intro cs hcs htake
      refine ⟨by rw [octets?_eq_none hcs, ite_self], ?_⟩
      have htake' : cs.takeWhile (fun c => (hexValue? c).isSome) = [] := htake
      rw [group?, htake', if_pos (.inl rfl)]
    rcases hrest with rfl | ⟨tail, rfl⟩
    · cases first with
      | false => rfl
      | true =>
        obtain ⟨hoctets, hgroup⟩ := hnone [] (by simp) rfl
        simp only [groups?, if_true, hoctets, hgroup]
    · have htail : '.' ∉ ':' :: tail := fun h => hpoint (List.mem_cons_of_mem _ h)
      cases first with
      | false =>
        obtain ⟨hoctets, hgroup⟩ := hnone (':' :: tail) htail rfl
        simp only [groups?, Bool.false_eq_true, if_false, hoctets, hgroup]
      | true =>
        obtain ⟨hoctets, hgroup⟩ := hnone (':' :: ':' :: tail) hpoint rfl
        simp only [groups?, if_true, hoctets, hgroup]

/-- Groups behind colons read back. -/
theorem groups?_colonGroups {gs : List Nat} {room : Nat} (hroom : gs.length ≤ room)
    (hgs : ∀ g ∈ gs, g < 0x10000) {rest : List Char} (hrest : EndsGroups rest) :
    groups? false room (colonGroups gs ++ rest) = (gs, false, rest) := by
  induction gs generalizing room with
  | nil => exact groups?_of_ends false room hrest
  | cons g gs ih =>
    obtain ⟨room, rfl⟩ : ∃ k, room = k + 1 := by
      rw [List.length_cons] at hroom
      exact ⟨room - 1, by omega⟩
    have hg := hgs g List.mem_cons_self
    have htail : ∀ h ∈ gs, h < 0x10000 := fun h hh => hgs h (List.mem_cons_of_mem g hh)
    have hpoint : '.' ∉ groupText g ++ (colonGroups gs ++ rest) := by
      simp only [List.mem_append, not_or]
      exact ⟨point_not_mem_groupText hg, point_not_mem_colonGroups htail, hrest.1⟩
    have htext : colonGroups (g :: gs) ++ rest =
        ':' :: (groupText g ++ (colonGroups gs ++ rest)) := by
      simp [colonGroups]
    have hread := group?_groupText hg (takeWhile_colonGroups gs hrest)
    have hmore := ih (Nat.le_of_succ_le_succ hroom) htail
    rw [htext]
    simp only [groups?, Bool.false_eq_true, if_false, octets?_eq_none hpoint, ite_self, hread,
      hmore]

/-- Groups with colons between them read back. -/
theorem groups?_separated {gs : List Nat} {room : Nat} (hroom : gs.length ≤ room)
    (hgs : ∀ g ∈ gs, g < 0x10000) {rest : List Char} (hrest : EndsGroups rest) :
    groups? true room (separated ':' (gs.map groupText) ++ rest) = (gs, false, rest) := by
  cases gs with
  | nil => exact groups?_of_ends true room hrest
  | cons g gs =>
    obtain ⟨room, rfl⟩ : ∃ k, room = k + 1 := by
      rw [List.length_cons] at hroom
      exact ⟨room - 1, by omega⟩
    have hg := hgs g List.mem_cons_self
    have htail : ∀ h ∈ gs, h < 0x10000 := fun h hh => hgs h (List.mem_cons_of_mem g hh)
    have hpoint : '.' ∉ groupText g ++ (colonGroups gs ++ rest) := by
      simp only [List.mem_append, not_or]
      exact ⟨point_not_mem_groupText hg, point_not_mem_colonGroups htail, hrest.1⟩
    have htext : separated ':' ((g :: gs).map groupText) ++ rest =
        groupText g ++ (colonGroups gs ++ rest) := by
      rw [List.map_cons, separated_cons, List.flatMap_map, List.append_assoc]
      rfl
    have hread := group?_groupText hg (takeWhile_colonGroups gs hrest)
    have hmore := groups?_colonGroups (Nat.le_of_succ_le_succ hroom) htail hrest
    rw [htext]
    simp only [groups?, if_true, octets?_eq_none hpoint, ite_self, hread, hmore]

/-- The run of zeros that is found is one, and it lies within the list. -/
theorem zeroRun_spec (start : Nat) (gs : List Nat) :
    ∃ k, (zeroRun start gs).1 = start + k ∧ k + (zeroRun start gs).2 ≤ gs.length ∧
      gs = gs.take k ++ List.replicate (zeroRun start gs).2 0 ++
        gs.drop (k + (zeroRun start gs).2) := by
  induction gs generalizing start with
  | nil => exact ⟨0, rfl, Nat.le_refl 0, rfl⟩
  | cons g gs ih =>
    unfold zeroRun
    dsimp only
    split
    · have hprefix : (g :: gs).takeWhile (· = 0) <+: g :: gs := List.takeWhile_prefix _
      have hzeros : (g :: gs).takeWhile (· = 0) =
          List.replicate ((g :: gs).takeWhile (· = 0)).length 0 := by
        refine List.eq_replicate_of_mem fun n hn => ?_
        exact of_decide_eq_true (List.all_eq_true.mp List.all_takeWhile n hn)
      refine ⟨0, rfl, by rw [Nat.zero_add]; exact hprefix.length_le, ?_⟩
      rw [← hzeros, Nat.zero_add, List.take_zero, List.nil_append]
      exact (List.prefix_iff_eq_append.mp hprefix).symm
    · obtain ⟨k, hstart, hlength, hsplit⟩ := ih (start + 1)
      refine ⟨k + 1, by rw [hstart]; omega, by rw [List.length_cons]; omega, ?_⟩
      have hindex : k + 1 + (zeroRun (start + 1) gs).2 = k + (zeroRun (start + 1) gs).2 + 1 := by
        omega
      rw [hindex, List.take_succ_cons, List.drop_succ_cons, List.cons_append, List.cons_append,
        ← hsplit]

/-- Eight groups contain no point and read back. -/
theorem groupsOf?_groupsText {gs : List Nat} (hlength : gs.length = 8)
    (hgs : ∀ g ∈ gs, g < 0x10000) :
    '.' ∉ groupsText gs ∧ groupsOf? (groupsText gs) = some (gs, []) := by
  have hseparated : ∀ hs : List Nat, (∀ h ∈ hs, h < 0x10000) →
      '.' ∉ separated ':' (hs.map groupText) := by
    intro hs hhs
    cases hs with
    | nil => simp [separated]
    | cons h hs =>
      rw [List.map_cons, separated_cons, List.flatMap_map, List.mem_append, not_or]
      exact ⟨point_not_mem_groupText (hhs h List.mem_cons_self),
        point_not_mem_colonGroups fun i hi => hhs i (List.mem_cons_of_mem h hi)⟩
  obtain ⟨k, hstart, hrun, hsplit⟩ := zeroRun_spec 0 gs
  rw [Nat.zero_add] at hstart
  unfold groupsText
  dsimp only
  generalize (zeroRun 0 gs).2 = run at hrun hsplit ⊢
  rw [hstart]
  by_cases hshort : run < 2
  · rw [if_pos hshort]
    refine ⟨hseparated gs hgs, ?_⟩
    have hend : EndsGroups [] := ⟨by simp, .inl rfl⟩
    have hread := groups?_separated (Nat.le_of_eq hlength) hgs hend
    rw [List.append_nil] at hread
    rw [groupsOf?, hread]
    exact if_pos hlength
  · rw [if_neg hshort]
    have hfront : ∀ g ∈ gs.take k, g < 0x10000 := fun g hg => hgs g (List.mem_of_mem_take hg)
    have hback : ∀ g ∈ gs.drop (k + run), g < 0x10000 :=
      fun g hg => hgs g (List.mem_of_mem_drop hg)
    have hpointBack := hseparated _ hback
    have hpoint : '.' ∉ ':' :: ':' :: separated ':' ((gs.drop (k + run)).map groupText) := by
      simpa using hpointBack
    refine ⟨?_, ?_⟩
    · rw [List.mem_append, not_or]
      exact ⟨hseparated _ hfront, hpoint⟩
    · have hlengthFront : (gs.take k).length = k := by
        rw [List.length_take]
        omega
      have hlengthBack : (gs.drop (k + run)).length = 8 - k - run := by
        rw [List.length_drop]
        omega
      have hroomFront : (gs.take k).length ≤ 8 := by omega
      have hroomBack : (gs.drop (k + run)).length ≤ 7 - k := by omega
      have hheads := groups?_separated hroomFront hfront ⟨hpoint, .inr ⟨_, rfl⟩⟩
      have hend : EndsGroups [] := ⟨by simp, .inl rfl⟩
      have htails := groups?_separated hroomBack hback hend
      rw [List.append_nil] at htails
      rw [groupsOf?, hheads]
      simp only [hlengthFront, htails, hlengthBack]
      rw [if_neg (by omega), if_neg (by simp)]
      have hzeros : 8 - k - (8 - k - run) = run := by omega
      rw [hzeros, ← hsplit]

/-- The groups of a word are eight words of 16 bits that make it up. -/
theorem groups_spec (word : BitVec 128) :
    (groups word).length = 8 ∧ (∀ g ∈ groups word, g < 0x10000) ∧
      joinDigits 16 (groups word) = word.toNat := by
  have hlt := word.isLt
  refine ⟨rfl, ?_, ?_⟩
  · intro g hg
    simp only [groups, List.mem_cons, List.not_mem_nil, or_false] at hg
    omega
  · simp only [groups, joinDigits, List.foldl_cons, List.foldl_nil]
    omega

/-- An address of the second family that embeds one of the first reads back. -/
theorem groupsOf?_mapped {word : BitVec 128} (h : word.toNat >>> 32 = 0xffff) :
    groupsOf? ([':', ':', 'f', 'f', 'f', 'f', ':'] ++ octetText (BitVec.ofNat 32 word.toNat)) =
      some (groups word, []) := by
  have hlt := word.isLt
  have hlow : (BitVec.ofNat 32 word.toNat).toNat = word.toNat % 0x100000000 :=
    BitVec.toNat_ofNat _ _
  generalize BitVec.ofNat 32 word.toNat = low at hlow ⊢
  have hoctets := octets?_octetText low List.takeWhile_nil
  rw [List.append_nil] at hoctets
  have hinner : octets? ('f' :: 'f' :: 'f' :: 'f' :: ':' :: octetText low) = none := rfl
  have hgroup : group? ('f' :: 'f' :: 'f' :: 'f' :: ':' :: octetText low) =
      some (0xffff, ':' :: octetText low) := rfl
  have htail : groups? true 7 ('f' :: 'f' :: 'f' :: 'f' :: ':' :: octetText low) =
      ([0xffff, low.toNat / 0x10000, low.toNat % 0x10000], true, []) := by
    simp only [groups?, if_true, hinner, ite_self, hgroup, Bool.false_eq_true, if_false, hoctets,
      Nat.reduceEqDiff]
  have hhead : groups? true 8 (':' :: ':' :: 'f' :: 'f' :: 'f' :: 'f' :: ':' :: octetText low) =
      ([], false, ':' :: ':' :: 'f' :: 'f' :: 'f' :: 'f' :: ':' :: octetText low) := rfl
  have hgroups : groups word =
      [0, 0, 0, 0, 0, 0xffff, low.toNat / 0x10000, low.toNat % 0x10000] := by
    simp only [groups, List.cons.injEq, and_true]
    omega
  rw [groupsOf?]
  simp only [List.cons_append, List.nil_append, hhead, List.length_nil, Nat.sub_zero, htail,
    hgroups]
  rfl

/-- An address reads back from its text. -/
theorem read?_text (a : Address) : read? (String.ofList a.text) = some a := by
  unfold read?
  rw [String.toList_ofList]
  cases a with
  | v4 word =>
    have hoctets := octets?_octetText word List.takeWhile_nil
    rw [List.append_nil] at hoctets
    simp only [text, hoctets, BitVec.ofNat_toNat, BitVec.setWidth_eq]
  | v6 word =>
    obtain ⟨hlength, hgs, hjoin⟩ := groups_spec word
    have hword : BitVec.ofNat 128 (joinDigits 16 (groups word)) = word := by
      rw [hjoin, BitVec.ofNat_toNat, BitVec.setWidth_eq]
    by_cases hmapped : word.toNat >>> 32 = 0xffff
    · have hoctets : octets? ([':', ':', 'f', 'f', 'f', 'f', ':'] ++
          octetText (BitVec.ofNat 32 word.toNat)) = none := rfl
      simp only [text, if_pos hmapped, hoctets, groupsOf?_mapped hmapped, hword]
    · obtain ⟨hpoint, hread⟩ := groupsOf?_groupsText hlength hgs
      simp only [text, if_neg hmapped, octets?_eq_none hpoint, hread, hword]

/-- Two addresses with the same text are equal. -/
theorem text_injective {a b : Address} (h : a.text = b.text) : a = b := by
  have hread := read?_text a
  rw [h, read?_text b] at hread
  exact (Option.some.inj hread).symm

/-- The characters of separated texts are those of the texts and the separator. -/
theorem mem_separated {sep c : Char} {texts : List (List Char)} (h : c ∈ separated sep texts) :
    c = sep ∨ ∃ text ∈ texts, c ∈ text := by
  cases texts with
  | nil => exact absurd h List.not_mem_nil
  | cons first rest =>
    rw [separated_cons] at h
    rcases List.mem_append.mp h with h | h
    · exact .inr ⟨first, List.mem_cons_self, h⟩
    · obtain ⟨text, htext, h⟩ := List.mem_flatMap.mp h
      rcases List.mem_cons.mp h with rfl | h
      · exact .inl rfl
      · exact .inr ⟨text, List.mem_cons_of_mem _ htext, h⟩

/-- The text of an address contains no semicolon. -/
theorem semicolon_not_mem_text (a : Address) : ';' ∉ a.text := by
  have hoctets : ∀ word, ';' ∉ octetText word := by
    intro word h
    rcases mem_separated h with h | ⟨text, htext, h⟩
    · exact absurd h (by decide)
    · obtain ⟨n, -, rfl⟩ := List.mem_map.mp htext
      exact absurd (isDigit_of_mem_digits n ';' h) (by decide)
  have hgroups : ∀ gs : List Nat, (∀ g ∈ gs, g < 0x10000) →
      ';' ∉ separated ':' (gs.map groupText) := by
    intro gs hgs h
    rcases mem_separated h with h | ⟨text, htext, h⟩
    · exact absurd h (by decide)
    · obtain ⟨g, hg, rfl⟩ := List.mem_map.mp htext
      obtain ⟨-, -, hhex, -⟩ := groupText_spec (hgs g hg)
      exact (ne_of_isHex (hhex ';' h)).2.2 rfl
  cases a with
  | v4 word => exact hoctets word
  | v6 word =>
    obtain ⟨-, hgs, -⟩ := groups_spec word
    rw [text]
    split
    · rw [List.mem_append, not_or]
      exact ⟨by decide, hoctets _⟩
    · unfold groupsText
      dsimp only
      split
      · exact hgroups _ hgs
      · simp only [List.mem_append, List.mem_cons, not_or]
        exact ⟨hgroups _ fun g hg => hgs g (List.mem_of_mem_take hg), by decide, by decide,
          hgroups _ fun g hg => hgs g (List.mem_of_mem_drop hg)⟩

end FlowTally.Address
