import FlowTally.Proofs.Time.KeyText
import FlowTally.Text.Size
import FlowTally.Time.Reader

/-!
# Points in time read back

The form of lines cuts off what is below a millisecond. From the form of a whole number of
milliseconds in a year of four digits the settled form of the point is read back: the reader takes
each part off the front, and the parts name a date that exists and a second of a day. Second 60
stands for a leap second on both sides. Nothing that is read is unsettled.
-/

namespace FlowTally.Instant

open Decimal Calendar

/-- Padded digits of a small number are read as that number. -/
theorem fixedDigits_padded {width n : Nat} (hwidth : 0 < width) (h : n < 10 ^ width)
    (rest : List Char) : fixedDigits width (padded width n ++ rest) = .ok (n, rest) := by
  have hlength := length_padded hwidth h
  have htake : (padded width n ++ rest).take width = padded width n := by
    rw [List.take_append_of_le_length hlength.ge, List.take_of_length_le hlength.le]
  have hdrop : (padded width n ++ rest).drop width = rest := by
    rw [List.drop_append_of_le_length hlength.ge, List.drop_of_length_le hlength.le,
      List.nil_append]
  have hdigits : (padded width n).all isDigit = true :=
    List.all_eq_true.mpr fun c hc => isDigit_of_mem_padded hc
  simp only [fixedDigits, htake, hdrop, hlength, hdigits, ofDigits_padded]
  rfl

/-- An allowed character is taken. -/
theorem oneOf_cons {allowed : List Char} {c : Char} (h : c ∈ allowed) (rest : List Char) :
    oneOf allowed (c :: rest) = .ok ((), rest) := by
  simp only [oneOf, if_pos h]

/-- A year of four digits is its padded digits. -/
theorem yearText_eq {year : Int} (h : 0 ≤ year ∧ year ≤ 9999) :
    yearText year = padded 4 year.toNat ∧ year.toNat < 10 ^ 4 ∧ (year.toNat : Int) = year := by
  refine ⟨?_, by omega, by omega⟩
  rw [yearText, if_pos h]
  exact congrArg (padded 4) (by omega)

/-- The date of a day in a year of four digits is read back. -/
theorem date_dateText {days : Int}
    (hyear : 0 ≤ (Date.ofDays days).year ∧ (Date.ofDays days).year ≤ 9999) (rest : List Char) :
    date (dateText (Date.ofDays days) ++ rest) = .ok (Date.ofDays days, rest) := by
  have hexists := exists_ofDays days
  obtain ⟨-, hmonth, -, hday⟩ := ofDays_bounds days
  generalize Date.ofDays days = d at *
  obtain ⟨htext, hlt, hyearEq⟩ := yearText_eq hyear
  have hd : (⟨(d.year.toNat : Int), d.month, d.day⟩ : Date) = d := by rw [hyearEq]
  simp only [date, dateText, htext, List.append_assoc, List.cons_append, bind, Except.bind,
    fixedDigits_padded (show 0 < 4 by omega) hlt, oneOf_cons (List.mem_singleton_self '-'),
    fixedDigits_padded (show 0 < 2 by omega) (show d.month < 10 ^ 2 by omega),
    fixedDigits_padded (show 0 < 2 by omega) (show d.day < 10 ^ 2 by omega), hd, hexists, if_true]

/-- The places of a second are read back as whole milliseconds. -/
theorem fraction_millis {nano : Nat} (h : nano < 1000000000) (hmillis : nano % 1000000 = 0)
    {rest : List Char} (hrest : ∀ c ∈ rest.head?, isDigit c = false) :
    fraction (fractionText .millis nano ++ rest) = .ok (nano, rest) := by
  have hlength : (padded 3 (nano / 1000000)).length = 3 := length_padded (by omega) (by omega)
  have htake : (padded 3 (nano / 1000000) ++ rest).takeWhile isDigit = padded 3 (nano / 1000000) := by
    have hstop : rest.takeWhile isDigit = [] := by
      cases rest with
      | nil => rfl
      | cons c cs => exact List.takeWhile_cons_of_neg (by simp [hrest c rfl])
    rw [List.takeWhile_append_of_pos fun c hc => isDigit_of_mem_padded hc, hstop, List.append_nil]
  have hne : padded 3 (nano / 1000000) ≠ [] := by
    intro hnil
    rw [hnil] at hlength
    cases hlength
  have hkept : (padded 3 (nano / 1000000)).take 9 = padded 3 (nano / 1000000) :=
    List.take_of_length_le (by omega)
  have hnano : nano / 1000000 * Nat.pow 10 (9 - 3) = nano := by
    rw [show Nat.pow 10 (9 - 3) = 1000000 from rfl]
    omega
  rw [fractionText, List.cons_append, fraction]
  simp only [htake, if_neg hne, hkept, ofDigits_padded, hlength, hnano]
  rw [List.drop_append_of_le_length hlength.ge, List.drop_of_length_le hlength.le, List.nil_append]

/-- The time of day of a whole number of milliseconds is read back, second 60 for a leap second. -/
theorem clock_clockText {s nano : Nat} (hs : s < 86400) (hnano : nano < 2000000000)
    (rest : List Char) :
    clock (clockText .millis s nano ++ rest) =
      .ok ((s / 3600, s / 60 % 60, s % 60 + nano / 1000000000),
        fractionText .millis (nano % 1000000000) ++ rest) := by
  have hcolon : ∀ cs, oneOf [':'] (':' :: cs) = .ok ((), cs) :=
    oneOf_cons (List.mem_singleton_self ':')
  simp only [clock, clockText, List.append_assoc, List.cons_append, bind, Except.bind, hcolon,
    fixedDigits_padded (show 0 < 2 by omega) (show s / 3600 < 10 ^ 2 by omega),
    fixedDigits_padded (show 0 < 2 by omega) (show s / 60 % 60 < 10 ^ 2 by omega),
    fixedDigits_padded (show 0 < 2 by omega)
      (show s % 60 + nano / 1000000000 < 10 ^ 2 by omega)]

/-- The form in lines takes no fewer than 19 characters. -/
theorem length_lineText (t : Instant) : 19 ≤ t.lineText.length := by
  have hpadded : ∀ width n, width ≤ (padded width n).length := by
    intro width n
    rw [padded, List.length_append, List.length_replicate]
    omega
  have hyear : 4 ≤ (yearText (Date.ofDays t.day).year).length := by
    have habs := hpadded 4 (Date.ofDays t.day).year.natAbs
    unfold yearText
    split
    · exact habs
    · rw [List.length_cons]
      omega
  have hmonth := hpadded 2 (Date.ofDays t.day).month
  have hday := hpadded 2 (Date.ofDays t.day).day
  have hhour := hpadded 2 (t.secondOfDay / 3600)
  have hminute := hpadded 2 (t.secondOfDay / 60 % 60)
  have hsecond := hpadded 2 (t.secondOfDay % 60 + t.nano / 1000000000)
  simp only [lineText, text, dateText, clockText, List.length_append, List.length_cons]
  omega

/-- The parts of a settled point give it back. -/
theorem IsSettled.ofParts?_day {t : Instant} (h : t.IsSettled) :
    ofParts? (t.day * 86400 + t.secondOfDay) t.nano = some t := by
  rw [← second_eq, ofParts?, dif_pos ⟨t.nano_lt, h, t.earliest_le, t.le_latest⟩]

/-- A settled point of a whole number of milliseconds in a year of four digits is read back from
its form in lines. -/
theorem IsSettled.read_lineText {t : Instant} (h : t.IsSettled) (hmillis : t.nano % 1000000 = 0)
    (hyear : 0 ≤ (Date.ofDays t.day).year ∧ (Date.ofDays t.day).year ≤ 9999) :
    read (String.ofList t.lineText) = .ok t := by
  have hlength := length_lineText t
  have hsize : ¬(String.ofList t.lineText).utf8ByteSize < 19 := by
    have hbytes := Text.length_le_byteSize t.lineText
    rw [Text.utf8ByteSize_ofList]
    omega
  have hs := t.secondOfDay_lt
  have hleap := h.secondOfDay_mod
  have hnano := t.nano_lt
  have hclock := clock_clockText hs hnano ['Z']
  have hfraction : fraction (fractionText .millis (t.nano % 1000000000) ++ ['Z']) =
      .ok (t.nano % 1000000000, ['Z']) := by
    refine fraction_millis (by omega) (by omega) ?_
    intro c hc
    obtain rfl := Option.some.inj hc
    decide
  unfold read
  rw [if_neg hsize, String.toList_ofList]
  simp only [lineText, text, List.append_assoc, List.cons_append, bind, Except.bind,
    date_dateText hyear, oneOf_cons (show 'T' ∈ ['T', 't', ' '] by decide), hclock, hfraction]
  have hsecond : (if t.secondOfDay % 60 + t.nano / 1000000000 = 60 then
      (59, t.nano % 1000000000 + 1000000000)
      else (t.secondOfDay % 60 + t.nano / 1000000000, t.nano % 1000000000)) =
      (t.secondOfDay % 60, t.nano) := by
    by_cases hlong : 1000000000 ≤ t.nano
    · have hlast := hleap hlong
      rw [if_pos (by omega), hlast]
      exact congrArg (Prod.mk 59) (by omega)
    · rw [if_neg (by omega)]
      exact congrArg₂ Prod.mk (by omega) (by omega)
  have hparts : t.secondOfDay / 3600 * 3600 + t.secondOfDay / 60 % 60 * 60 + t.secondOfDay % 60 =
      t.secondOfDay := by omega
  have hdistance : distance ['Z'] = .ok (0, []) := rfl
  rw [if_neg (by have := hleap; omega), hdistance]
  simp only [hsecond, hparts, ne_eq, not_true_eq_false, if_false, toDays_ofDays, Int.sub_zero,
    h.ofParts?_day, Int.natAbs_zero, show ¬86400 ≤ 0 by omega]

/-- The settled form of a point is read back from the form of the point in lines, if that is a whole
number of milliseconds in a year of four digits. -/
theorem read_lineText {t : Instant} (hmillis : t.nano % 1000000 = 0)
    (hyear : 0 ≤ (Date.ofDays t.day).year ∧ (Date.ofDays t.day).year ≤ 9999) :
    read (String.ofList t.lineText) = .ok t.settled := by
  have hmillis' : t.settled.nano % 1000000 = 0 := by
    rcases t.settled_cases with ⟨-, heq⟩ | ⟨-, -, -, hnano⟩
    · rwa [heq]
    · omega
  rw [lineText, ← text_settled]
  exact t.isSettled_settled.read_lineText hmillis' (by rwa [day_settled])

/-- A point that is made of parts is settled. -/
theorem isSettled_of_ofParts? {second : Int} {nano : Nat} {t : Instant}
    (h : ofParts? second nano = some t) : t.IsSettled := by
  unfold ofParts? at h
  split at h
  · next hparts =>
    obtain rfl := Option.some.inj h
    exact hparts.2.1
  · cases h

/-- A point that is read is settled. -/
theorem isSettled_of_read {s : String} {t : Instant} (h : read s = .ok t) : t.IsSettled := by
  unfold read at h
  simp only [bind, Except.bind] at h
  -- A step that fails ends the reading, and the last step makes the point out of its parts.
  repeat' split at h
  all_goals cases h
  next hparts => exact isSettled_of_ofParts? hparts

end FlowTally.Instant
