import FlowTally.Proofs.Address.ReadBack
import FlowTally.Proofs.Decimal.PlainText
import FlowTally.Proofs.Time.KeyText
import FlowTally.Value.KeyText

/-!
# Keys are unique

A value can be read off the front of a key. Its letter tells the type, and the semicolon
behind it is the first one, or the first that is not escaped if the value is a text. So two
lists of values have one key only if they agree value by value, where all zeros agree and
all NaNs do, and a point in time that goes past the end of a second inside a minute agrees with
the point in the next second.
-/

namespace FlowTally.Value

/-- Two values cannot be told apart in a key: they are the same, up to the sign of a zero, the
bits of a NaN, and the second that a point in time is counted in. -/
def Agrees : Value → Value → Prop
  | .f64 x, .f64 y =>
    x = y ∨ (x.isZero = true ∧ y.isZero = true) ∨ (x.isNaN = true ∧ y.isNaN = true)
  | .timestamp t, .timestamp u => t.settled = u.settled
  | v, w => v = w

/-- Every value agrees with itself. -/
theorem Agrees.refl (v : Value) : v.Agrees v := by
  cases v with
  | f64 x => exact .inl rfl
  | _ => exact rfl

/-- Values that agree are the same unless they are floating-point numbers or points in time. -/
theorem Agrees.eq_of_type_ne {v w : Value} (h : v.Agrees w) (hfloat : v.type ≠ .f64)
    (htime : v.type ≠ .timestamp) : v = w := by
  cases v with
  | f64 x => exact absurd rfl hfloat
  | timestamp t => exact absurd rfl htime
  | _ => exact h

/-- Different types have different letters. -/
theorem keyTag_injective {a b : ValueType} (h : keyTag a = keyTag b) : a = b := by
  cases a <;> cases b <;> first | rfl | exact absurd h (by decide)

/-- What stands in front of a separator is told if it does not contain it. -/
theorem append_separator_injective {sep : Char} {cs ds rest rest' : List Char} (hcs : sep ∉ cs)
    (hds : sep ∉ ds) (h : cs ++ sep :: rest = ds ++ sep :: rest') : cs = ds ∧ rest = rest' := by
  induction cs generalizing ds with
  | nil =>
    cases ds with
    | nil => exact ⟨rfl, (List.cons.inj h).2⟩
    | cons d ds =>
      obtain rfl : sep = d := (List.cons.inj h).1
      exact absurd List.mem_cons_self hds
  | cons c cs ih =>
    cases ds with
    | nil =>
      obtain rfl : c = sep := (List.cons.inj h).1
      exact absurd List.mem_cons_self hcs
    | cons d ds =>
      obtain ⟨rfl, htail⟩ := List.cons.inj h
      obtain ⟨rfl, hrest⟩ := ih (fun hmem => hcs (List.mem_cons_of_mem c hmem))
        (fun hmem => hds (List.mem_cons_of_mem c hmem)) htail
      exact ⟨rfl, hrest⟩

/-- An escaped character is itself behind a backslash or is no backslash and no semicolon. -/
theorem keyEscape_cases (c : Char) :
    keyEscape c = ['\\', c] ∨ keyEscape c = [c] ∧ c ≠ '\\' ∧ c ≠ ';' := by
  unfold keyEscape
  by_cases hc : c = '\\' ∨ c = ';'
  · exact .inl (if_pos hc)
  · obtain ⟨hbackslash, hsemicolon⟩ := not_or.mp hc
    exact .inr ⟨if_neg hc, hbackslash, hsemicolon⟩

/-- An escaped text in front of a semicolon is told, whatever it contains. -/
theorem escaped_append_injective {cs ds rest rest' : List Char}
    (h : cs.flatMap keyEscape ++ ';' :: rest = ds.flatMap keyEscape ++ ';' :: rest') :
    cs = ds ∧ rest = rest' := by
  -- An escaped character never starts with the semicolon that ends the text.
  have hend : ∀ (c : Char) (tail more : List Char), ';' :: more ≠ keyEscape c ++ tail := by
    intro c tail more heq
    rcases keyEscape_cases c with hc | ⟨hc, -, hsemicolon⟩
    · rw [hc] at heq
      exact absurd (List.cons.inj heq).1 (by decide)
    · rw [hc] at heq
      exact hsemicolon (List.cons.inj heq).1.symm
  induction cs generalizing ds with
  | nil =>
    cases ds with
    | nil => exact ⟨rfl, (List.cons.inj h).2⟩
    | cons d ds =>
      rw [List.flatMap_cons, List.append_assoc] at h
      exact absurd h (hend d _ _)
  | cons c cs ih =>
    cases ds with
    | nil =>
      rw [List.flatMap_cons, List.append_assoc] at h
      exact absurd h.symm (hend c _ _)
    | cons d ds =>
      rw [List.flatMap_cons, List.flatMap_cons, List.append_assoc, List.append_assoc] at h
      have hhead : c = d ∧ cs.flatMap keyEscape ++ ';' :: rest =
          ds.flatMap keyEscape ++ ';' :: rest' := by
        rcases keyEscape_cases c with hc | ⟨hc, hcbackslash, -⟩ <;>
          rcases keyEscape_cases d with hd | ⟨hd, hdbackslash, -⟩ <;>
          rw [hc, hd] at h
        · obtain ⟨hcd, htail⟩ := List.cons.inj (List.cons.inj h).2
          exact ⟨hcd, htail⟩
        · exact absurd (List.cons.inj h).1.symm hdbackslash
        · exact absurd (List.cons.inj h).1 hcbackslash
        · exact List.cons.inj h
      obtain ⟨rfl, htail⟩ := hhead
      obtain ⟨rfl, hrest⟩ := ih htail
      exact ⟨rfl, hrest⟩

/-- Hexadecimal digits contain no semicolon. -/
theorem ne_semicolon_of_hexDigit : ∀ n < 16, Text.hexDigit n ≠ ';' := by decide

/-- The text of a value inside a key contains no semicolon, unless it is a text. -/
theorem semicolon_not_mem_keyBody {v : Value} (h : v.type ≠ .string) : ';' ∉ v.keyBody := by
  have hdigits : ∀ n, ';' ∉ Decimal.digits n :=
    fun n hmem => absurd (Decimal.isDigit_of_mem_digits n ';' hmem) (by decide)
  cases v with
  | u8 n => exact hdigits _
  | u16 n => exact hdigits _
  | u32 n => exact hdigits _
  | u64 n => exact hdigits _
  | f64 x =>
    rw [keyBody]
    split
    · exact Binary64.semicolon_not_mem_plainText _
    · exact Binary64.semicolon_not_mem_plainText _
  | timestamp t => exact t.semicolon_not_mem_keyText
  | addr a => exact a.semicolon_not_mem_text
  | mac m =>
    intro hmem
    rcases Mac.mem_text hmem with hc | ⟨n, hn, hc⟩
    · exact absurd hc (by decide)
    · exact ne_semicolon_of_hexDigit n hn hc.symm
  | string s => exact absurd rfl h
  | blob bytes =>
    intro hmem
    obtain ⟨b, -, hmem⟩ := List.mem_flatMap.mp hmem
    obtain ⟨n, hn, hc⟩ := Text.mem_hexPair hmem
    exact ne_semicolon_of_hexDigit n hn hc.symm

/-- Floating-point numbers with the same text inside a key agree. -/
theorem agrees_of_keyBody_f64 {x y : Binary64} (h : (Value.f64 x).keyBody = (Value.f64 y).keyBody) :
    (Value.f64 x).Agrees (.f64 y) := by
  have hzeroNaN : Binary64.zero.isNaN = false := by decide
  have hzeroZero : Binary64.zero.isZero = true := by decide
  -- The number that is written, with one zero for both.
  have hwritten : ∀ z : Binary64, ∃ w : Binary64, (Value.f64 z).keyBody = w.plainText ∧
      w.isNaN = z.isNaN ∧ (w = z ∨ w.isZero = true ∧ z.isZero = true) := by
    intro z
    cases hz : z.isZero with
    | true =>
      have hnumber : z.isNaN = false := by
        simp only [Binary64.isZero, beq_iff_eq] at hz
        simp [Binary64.isNaN, hz, Binary64.infinityBits]
      exact ⟨.zero, by rw [keyBody, if_pos hz], by rw [hnumber, hzeroNaN], .inr ⟨hzeroZero, rfl⟩⟩
    | false => exact ⟨z, by rw [keyBody, if_neg (by simp [hz])], rfl, .inl rfl⟩
  obtain ⟨v, hv, hvnan, hvx⟩ := hwritten x
  obtain ⟨w, hw, hwnan, hwy⟩ := hwritten y
  rw [hv, hw] at h
  cases hxnan : x.isNaN with
  | true =>
    cases hynan : y.isNaN with
    | true => exact .inr (.inr ⟨hxnan, hynan⟩)
    | false =>
      exact absurd h.symm (Binary64.plainText_ne_of_isNaN (hwnan.trans hynan) (hvnan.trans hxnan))
  | false =>
    cases hynan : y.isNaN with
    | true =>
      exact absurd h (Binary64.plainText_ne_of_isNaN (hvnan.trans hxnan) (hwnan.trans hynan))
    | false =>
      obtain rfl := Binary64.plainText_injective (hvnan.trans hxnan) (hwnan.trans hynan) h
      rcases hvx with rfl | ⟨hvzero, hxzero⟩
      · rcases hwy with rfl | ⟨hwzero, hyzero⟩
        · exact .inl rfl
        · exact .inr (.inl ⟨hwzero, hyzero⟩)
      · rcases hwy with rfl | ⟨-, hyzero⟩
        · exact .inr (.inl ⟨hxzero, hvzero⟩)
        · exact .inr (.inl ⟨hxzero, hyzero⟩)

/-- Values of one type with the same text inside a key agree. -/
theorem agrees_of_keyBody {v w : Value} (htype : v.type = w.type) (h : v.keyBody = w.keyBody) :
    v.Agrees w := by
  cases v with
  | u8 m =>
    cases w with
    | u8 n => exact congrArg Value.u8 (UInt8.toNat_inj.mp (Decimal.digits_injective h))
    | _ => cases htype
  | u16 m =>
    cases w with
    | u16 n => exact congrArg Value.u16 (UInt16.toNat_inj.mp (Decimal.digits_injective h))
    | _ => cases htype
  | u32 m =>
    cases w with
    | u32 n => exact congrArg Value.u32 (UInt32.toNat_inj.mp (Decimal.digits_injective h))
    | _ => cases htype
  | u64 m =>
    cases w with
    | u64 n => exact congrArg Value.u64 (UInt64.toNat_inj.mp (Decimal.digits_injective h))
    | _ => cases htype
  | f64 x =>
    cases w with
    | f64 y => exact agrees_of_keyBody_f64 h
    | _ => cases htype
  | timestamp t =>
    cases w with
    | timestamp u => exact Instant.keyText_eq_iff_settled.mp h
    | _ => cases htype
  | addr a =>
    cases w with
    | addr b => exact congrArg Value.addr (Address.text_injective h)
    | _ => cases htype
  | mac m =>
    cases w with
    | mac n => exact congrArg Value.mac (Mac.text_injective h)
    | _ => cases htype
  | string s =>
    cases w with
    | string t =>
      have hescaped : s.toList.flatMap keyEscape ++ ';' :: [] =
          t.toList.flatMap keyEscape ++ ';' :: [] := congrArg (· ++ [';']) h
      obtain ⟨hlist, -⟩ := escaped_append_injective hescaped
      exact congrArg Value.string (String.toList_inj.mp hlist)
    | _ => cases htype
  | blob bytes =>
    cases w with
    | blob bytes' => exact congrArg Value.blob (Text.hexBytes_injective h)
    | _ => cases htype

/-- A value is read off the front of a key, up to agreement. -/
theorem keyPart_append_injective {v w : Value} {rest rest' : List Char}
    (h : v.keyPart ++ rest = w.keyPart ++ rest') : v.Agrees w ∧ rest = rest' := by
  have hparts : keyTag v.type :: ':' :: (v.keyBody ++ ';' :: rest) =
      keyTag w.type :: ':' :: (w.keyBody ++ ';' :: rest') := by
    simpa [keyPart] using h
  obtain ⟨htag, hbody⟩ := List.cons.inj hparts
  have hbody := (List.cons.inj hbody).2
  have htype := keyTag_injective htag
  by_cases hstring : v.type = .string
  · obtain ⟨s, rfl⟩ : ∃ s, v = .string s := by
      cases v <;> first | exact ⟨_, rfl⟩ | cases hstring
    obtain ⟨t, rfl⟩ : ∃ t, w = .string t := by
      cases w <;> first | exact ⟨_, rfl⟩ | cases htype
    obtain ⟨hlist, hrest⟩ := escaped_append_injective hbody
    exact ⟨congrArg Value.string (String.toList_inj.mp hlist), hrest⟩
  · have hstring' : w.type ≠ .string := htype ▸ hstring
    obtain ⟨heq, hrest⟩ := append_separator_injective (semicolon_not_mem_keyBody hstring)
      (semicolon_not_mem_keyBody hstring') hbody
    exact ⟨agrees_of_keyBody htype heq, hrest⟩

/-- Lists of values with one key agree. -/
theorem agrees_of_keyText {vs ws : List Value} (h : keyText vs = keyText ws) :
    List.Forall₂ Agrees vs ws := by
  have hparts : vs.flatMap keyPart = ws.flatMap keyPart := String.ofList_injective h
  clear h
  induction vs generalizing ws with
  | nil =>
    cases ws with
    | nil => exact .nil
    | cons w ws => cases hparts
  | cons v vs ih =>
    cases ws with
    | nil => cases hparts
    | cons w ws =>
      rw [List.flatMap_cons, List.flatMap_cons] at hparts
      obtain ⟨hagrees, hrest⟩ := keyPart_append_injective hparts
      exact .cons hagrees (ih hrest)

/-- A list of values without floating-point numbers is told by its key, up to the points in time that
are not settled. -/
theorem eq_of_keyText {vs ws : List Value} (hvs : ∀ v ∈ vs, v.type ≠ .f64)
    (htimes : ∀ (i : Nat) (t u : Instant), vs[i]? = some (timestamp t) →
      ws[i]? = some (timestamp u) → t.settled = u.settled → t = u)
    (h : keyText vs = keyText ws) : vs = ws := by
  have hagrees := agrees_of_keyText h
  clear h
  induction hagrees with
  | nil => rfl
  | @cons v w vs ws hhead _ ih =>
    have hrest := ih (fun x hx => hvs x (List.mem_cons_of_mem _ hx)) fun i => htimes (i + 1)
    have hfirst : v = w := by
      cases v with
      | timestamp t =>
        cases w with
        | timestamp u => exact congrArg timestamp (htimes 0 t u rfl rfl hhead)
        | _ => cases hhead
      | f64 x => exact absurd rfl (hvs _ List.mem_cons_self)
      | _ => exact hhead
    rw [hfirst, hrest]

/-- Values that agree are written alike. -/
theorem Agrees.keyPart_eq {v w : Value} (h : v.Agrees w) : v.keyPart = w.keyPart := by
  cases v with
  | f64 x =>
    cases w with
    | f64 y =>
      have hbody : (Value.f64 x).keyBody = (Value.f64 y).keyBody := by
        rcases h with rfl | ⟨hx, hy⟩ | ⟨hx, hy⟩
        · rfl
        · rw [keyBody, keyBody, if_pos hx, if_pos hy]
        · have hnan : ∀ z : Binary64, z.isNaN = true →
              (Value.f64 z).keyBody = ['N', 'a', 'N'] := by
            intro z hz
            have hzero : z.isZero = false := by
              have hlarge : Binary64.infinityBits < z.magnitudeBits := of_decide_eq_true hz
              exact beq_eq_false_iff_ne.mpr (Nat.ne_zero_of_lt hlarge)
            rw [keyBody, if_neg (by simp [hzero]), Binary64.plainText, if_pos hz]
          rw [hnan x hx, hnan y hy]
      rw [keyPart, keyPart, hbody]
      rfl
    | _ => cases h
  | timestamp t =>
    cases w with
    | timestamp u =>
      have hbody : (Value.timestamp t).keyBody = (Value.timestamp u).keyBody :=
        Instant.keyText_eq_iff_settled.mpr h
      rw [keyPart, keyPart, hbody]
      rfl
    | _ => cases h
  | _ =>
    cases h
    rfl

/-- Lists of values that agree have one key. -/
theorem keyText_congr {vs ws : List Value} (h : List.Forall₂ Agrees vs ws) :
    keyText vs = keyText ws := by
  have hparts : vs.flatMap keyPart = ws.flatMap keyPart := by
    induction h with
    | nil => rfl
    | cons hhead _ ih => rw [List.flatMap_cons, List.flatMap_cons, hhead.keyPart_eq, ih]
  rw [keyText, keyText, hparts]

end FlowTally.Value
