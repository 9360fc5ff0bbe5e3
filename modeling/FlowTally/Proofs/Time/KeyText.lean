import FlowTally.Proofs.Decimal.Digits
import FlowTally.Proofs.Time.Calendar
import FlowTally.Proofs.Time.Settled
import Mathlib.Data.List.Basic

/-!
# What the written form of a point in time tells

A date and a time of day take a fixed number of characters behind the year, and the year
tells its sign by its first character. The places of a second that are written are told by
their number, and second 60 by itself says that a leap second is meant. Two points are written
alike when nothing is cut off exactly if they have one settled form, and where only
milliseconds are written, their settled forms lie in one millisecond.
-/

namespace FlowTally.Instant

open Decimal Calendar

/-- The text of a year tells it. -/
theorem yearText_injective {y z : Int} (h : yearText y = yearText z) : y = z := by
  obtain ⟨c, rest, hy, hc⟩ := exists_digit_of_padded 4 y.natAbs
  obtain ⟨d, rest', hz, hd⟩ := exists_digit_of_padded 4 z.natAbs
  have hsign : ∀ e : Char, isDigit e = true → e ≠ '-' ∧ e ≠ '+' := by
    intro e he
    constructor
    · rintro rfl
      exact absurd he (by decide)
    · rintro rfl
      exact absurd he (by decide)
  unfold yearText at h
  by_cases hyplain : 0 ≤ y ∧ y ≤ 9999
  · by_cases hzplain : 0 ≤ z ∧ z ≤ 9999
    · rw [if_pos hyplain, if_pos hzplain] at h
      have habs := padded_injective h
      omega
    · rw [if_pos hyplain, if_neg hzplain, hy] at h
      have hhead := (List.cons.inj h).1
      split at hhead
      · exact absurd hhead (hsign c hc).1
      · exact absurd hhead (hsign c hc).2
  · by_cases hzplain : 0 ≤ z ∧ z ≤ 9999
    · rw [if_neg hyplain, if_pos hzplain, hz] at h
      have hhead := (List.cons.inj h).1.symm
      split at hhead
      · exact absurd hhead (hsign d hd).1
      · exact absurd hhead (hsign d hd).2
    · rw [if_neg hyplain, if_neg hzplain] at h
      obtain ⟨hhead, htail⟩ := List.cons.inj h
      have habs := padded_injective htail
      by_cases hyneg : y < 0
      · by_cases hzneg : z < 0
        · omega
        · rw [if_pos hyneg, if_neg hzneg] at hhead
          exact absurd hhead (by decide)
      · by_cases hzneg : z < 0
        · rw [if_neg hyneg, if_pos hzneg] at hhead
          exact absurd hhead (by decide)
        · omega

/-- The text of a date tells the day. -/
theorem dateText_injective {days days' : Int}
    (h : dateText (Date.ofDays days) = dateText (Date.ofDays days')) : days = days' := by
  obtain ⟨-, hmonth, -, hday⟩ := ofDays_bounds days
  obtain ⟨-, hmonth', -, hday'⟩ := ofDays_bounds days'
  apply ofDays_injective
  unfold dateText at h
  have hbehind : ∀ {m d : Nat}, m ≤ 12 → d ≤ 31 →
      ('-' :: padded 2 m ++ '-' :: padded 2 d).length = 6 := by
    intro m d hm hd
    rw [List.length_append, List.length_cons, List.length_cons, length_padded (by omega) (by omega),
      length_padded (by omega) (by omega)]
  rw [List.append_assoc, List.append_assoc] at h
  obtain ⟨hyear, hrest⟩ := List.append_inj' h (by rw [hbehind hmonth hday, hbehind hmonth' hday'])
  obtain ⟨hmonthEq, hrest⟩ := padded_append_injective (by omega) (by omega) (by omega)
    (List.cons.inj hrest).2
  have hdayEq := padded_injective (List.cons.inj hrest).2
  have hyearEq := yearText_injective hyear
  have hext : ∀ {d e : Date}, d.year = e.year → d.month = e.month → d.day = e.day → d = e := by
    rintro ⟨⟩ ⟨⟩ rfl rfl rfl
    rfl
  exact hext hyearEq hmonthEq hdayEq

/-- The places of a second that are written: none, or the digits of a unit that divides
the nanoseconds. -/
theorem fractionText_cases {n : Nat} (hn : n < 1000000000) :
    n = 0 ∧ fractionText .fewest n = [] ∨
      ∃ width unit, fractionText .fewest n = '.' :: padded width (n / unit) ∧
        (padded width (n / unit)).length = width ∧ n / unit * unit = n ∧
        10 ^ width * unit = 1000000000 := by
  unfold fractionText
  dsimp only
  split
  · next hzero => exact .inl ⟨hzero, rfl⟩
  · refine .inr ?_
    split
    · exact ⟨3, 1000000, rfl, length_padded (by omega) (by omega), by omega, by omega⟩
    · split
      · exact ⟨6, 1000, rfl, length_padded (by omega) (by omega), by omega, by omega⟩
      · refine ⟨9, 1, by rw [Nat.div_one], ?_, by omega, by omega⟩
        exact length_padded (by omega) (by omega)

/-- The places of a second that are written tell it when nothing is cut off. -/
theorem fractionText_injective {m n : Nat} (hm : m < 1000000000) (hn : n < 1000000000)
    (h : fractionText .fewest m = fractionText .fewest n) : m = n := by
  rcases fractionText_cases hm with ⟨hmzero, hmtext⟩ | ⟨w, u, hmtext, hmlength, hmunit, hscale⟩
  · rcases fractionText_cases hn with ⟨hnzero, -⟩ | ⟨w', u', hntext, -⟩
    · omega
    · rw [hmtext, hntext] at h
      cases h
  · rcases fractionText_cases hn with ⟨-, hntext⟩ | ⟨w', u', hntext, hnlength, hnunit, hscale'⟩
    · rw [hmtext, hntext] at h
      cases h
    · rw [hmtext, hntext] at h
      obtain ⟨-, hdigits⟩ := List.cons.inj h
      -- The number of places is that of the digits, so the units are the same.
      obtain rfl : w = w' := by rw [← hmlength, hdigits, hnlength]
      obtain rfl : u = u' := by
        rw [← hscale'] at hscale
        exact Nat.eq_of_mul_eq_mul_left (Nat.pow_pos (by omega)) hscale
      rw [← hmunit, padded_injective hdigits, hnunit]

/-- The text of a time of day tells the second and the places behind it, if a leap second ends
a minute. -/
theorem clockText_parts {places : Places} {s s' n n' : Nat} (hs : s < 86400) (hs' : s' < 86400)
    (hn : n < 2000000000) (hn' : n' < 2000000000) (hleap : 1000000000 ≤ n → s % 60 = 59)
    (hleap' : 1000000000 ≤ n' → s' % 60 = 59)
    (h : clockText places s n = clockText places s' n') :
    s = s' ∧ n / 1000000000 = n' / 1000000000 ∧
      fractionText places (n % 1000000000) = fractionText places (n' % 1000000000) := by
  unfold clockText at h
  dsimp only at h
  simp only [List.append_assoc, List.cons_append] at h
  obtain ⟨hhour, h⟩ := padded_append_injective (by omega) (by omega) (by omega) h
  obtain ⟨hminute, h⟩ := padded_append_injective (by omega) (by omega) (by omega)
    (List.cons.inj h).2
  obtain ⟨hsecond, h⟩ := padded_append_injective (by omega) (by omega) (by omega)
    (List.cons.inj h).2
  -- Second 60 is written for leap seconds only.
  exact ⟨by omega, by omega, h⟩

/-- Which characters the text of a date is made of. -/
theorem mem_dateText {d : Date} {c : Char} (h : c ∈ dateText d) :
    isDigit c = true ∨ c = '-' ∨ c = '+' := by
  have hyear : c ∈ yearText d.year → isDigit c = true ∨ c = '-' ∨ c = '+' := by
    intro hc
    unfold yearText at hc
    split at hc
    · exact .inl (isDigit_of_mem_padded hc)
    · rcases List.mem_cons.mp hc with hc | hc
      · split at hc
        · exact .inr (.inl hc)
        · exact .inr (.inr hc)
      · exact .inl (isDigit_of_mem_padded hc)
  simp only [dateText, List.mem_append, List.mem_cons] at h
  rcases h with (hc | rfl | hc) | rfl | hc
  · exact hyear hc
  · exact .inr (.inl rfl)
  · exact .inl (isDigit_of_mem_padded hc)
  · exact .inr (.inl rfl)
  · exact .inl (isDigit_of_mem_padded hc)

/-- Which characters the text of a time of day is made of. -/
theorem mem_clockText {places : Places} {s n : Nat} {c : Char} (h : c ∈ clockText places s n) :
    isDigit c = true ∨ c = ':' ∨ c = '.' := by
  have hpadded : ∀ {w k : Nat}, c ∈ '.' :: padded w k →
      isDigit c = true ∨ c = ':' ∨ c = '.' := by
    intro w k hc
    rcases List.mem_cons.mp hc with rfl | hc
    · exact .inr (.inr rfl)
    · exact .inl (isDigit_of_mem_padded hc)
  have hfraction : c ∈ fractionText places (n % 1000000000) →
      isDigit c = true ∨ c = ':' ∨ c = '.' := by
    intro hc
    cases places with
    | millis => exact hpadded hc
    | fewest =>
      unfold fractionText at hc
      dsimp only at hc
      split at hc
      · exact absurd hc List.not_mem_nil
      · split at hc
        · exact hpadded hc
        · split at hc
          · exact hpadded hc
          · exact hpadded hc
  simp only [clockText, List.mem_append, List.mem_cons] at h
  rcases h with ((hc | rfl | hc) | rfl | hc) | hc
  · exact .inl (isDigit_of_mem_padded hc)
  · exact .inr (.inl rfl)
  · exact .inl (isDigit_of_mem_padded hc)
  · exact .inr (.inl rfl)
  · exact .inl (isDigit_of_mem_padded hc)
  · exact hfraction hc

/-- The text of a point in time inside a key contains no semicolon. -/
theorem semicolon_not_mem_keyText (t : Instant) : ';' ∉ t.keyText := by
  intro h
  simp only [keyText, text, List.mem_append, List.mem_cons, List.not_mem_nil, or_false] at h
  rcases h with (hc | hc | hc) | hc
  · exact absurd (mem_dateText hc) (by decide)
  · exact absurd hc (by decide)
  · exact absurd (mem_clockText hc) (by decide)
  · exact absurd hc (by decide)

/-- The text of a settled point tells the day, the second and the places behind it. -/
theorem IsSettled.text_parts {places : Places} {t u : Instant} (ht : t.IsSettled)
    (hu : u.IsSettled) (h : t.text places 'T' = u.text places 'T') :
    t.day = u.day ∧ t.secondOfDay = u.secondOfDay ∧ t.nano / 1000000000 = u.nano / 1000000000 ∧
      fractionText places (t.nano % 1000000000) = fractionText places (u.nano % 1000000000) := by
  have hfront : 'T' ∉ dateText (Date.ofDays t.day) :=
    fun hmem => absurd (mem_dateText hmem) (by decide)
  have hback : 'T' ∉ clockText places t.secondOfDay t.nano :=
    fun hmem => absurd (mem_clockText hmem) (by decide)
  obtain ⟨hdate, -, hrest⟩ := (List.append_cons_inj_of_notMem hfront hback).mp h
  exact ⟨dateText_injective hdate, clockText_parts t.secondOfDay_lt u.secondOfDay_lt t.nano_lt
    u.nano_lt ht.secondOfDay_mod hu.secondOfDay_mod hrest⟩

/-- Two settled points with the same text inside a key are equal. -/
theorem IsSettled.eq_of_keyText {t u : Instant} (ht : t.IsSettled) (hu : u.IsSettled)
    (h : t.keyText = u.keyText) : t = u := by
  obtain ⟨hday, hsecond, hleap, hplaces⟩ := ht.text_parts hu (List.append_inj' h rfl).1
  have hfraction := fractionText_injective (by omega) (by omega) hplaces
  exact eq_of_day hday hsecond (by omega)

/-- The text of a point inside a key tells its settled form, and nothing else. -/
theorem keyText_eq_iff_settled {t u : Instant} : t.keyText = u.keyText ↔ t.settled = u.settled := by
  constructor
  · intro h
    apply t.isSettled_settled.eq_of_keyText u.isSettled_settled
    rw [keyText, keyText, text_settled, text_settled]
    exact h
  · intro h
    rw [keyText, keyText, text_congr h]

/-- The last whole millisecond up to a point in time. -/
def toMillis (t : Instant) : Instant where
  second := t.second
  nano := t.nano / 1000000 * 1000000
  nano_lt := lt_of_le_of_lt (Nat.div_mul_le_self _ _) t.nano_lt
  earliest_le := t.earliest_le
  le_latest := t.le_latest

/-- Two settled points with the same text in results of lines lie in the same millisecond. -/
theorem IsSettled.toMillis_eq_of_lineText {t u : Instant} (ht : t.IsSettled) (hu : u.IsSettled)
    (h : t.lineText = u.lineText) : t.toMillis = u.toMillis := by
  obtain ⟨hday, hsecond, hleap, hplaces⟩ := ht.text_parts hu (List.append_inj' h rfl).1
  have hmillis := padded_injective (List.cons.inj hplaces).2
  have hnano : t.nano / 1000000 * 1000000 = u.nano / 1000000 * 1000000 := by omega
  exact eq_of_day hday hsecond hnano

end FlowTally.Instant
