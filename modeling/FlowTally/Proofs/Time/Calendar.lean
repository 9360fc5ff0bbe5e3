import FlowTally.Time.Calendar

/-!
# Dates and day numbers

A day of a cycle of 400 years is a number of centuries, a number of cycles of four years,
a number of years and a number of days. From this the year that the quotients give is seen
to be the year the day lies in, and the date of a day number has that day number.
-/

namespace FlowTally.Calendar

/-- The year of a day of a cycle of 400 years, as it is computed. -/
def yearOfDay (day : Nat) : Nat :=
  (day - day / 1460 + day / 36524 - day / 146096) / 365

/-- A day of a cycle in centuries, cycles of four years, years and days. Only a leap day
makes the last year one day longer. -/
theorem exists_parts {day : Nat} (h : day < 146097) :
    ∃ c q k d, day = 36524 * c + 1461 * q + 365 * k + d ∧ c ≤ 3 ∧ q ≤ 24 ∧ k ≤ 3 ∧ d ≤ 365 ∧
      (d = 365 → k = 3 ∧ (q = 24 → c = 3)) := by
  have hcentury : ∃ c r, day = 36524 * c + r ∧ c ≤ 3 ∧ r ≤ 36524 ∧ (r = 36524 → c = 3) := by
    by_cases hlast : day = 146096
    · exact ⟨3, 36524, by omega, by omega, by omega, fun _ => rfl⟩
    · exact ⟨day / 36524, day % 36524, by omega, by omega, by omega, by omega⟩
  obtain ⟨c, r, hday, hc, hr, hcentury⟩ := hcentury
  have hyear : ∃ k d, r % 1461 = 365 * k + d ∧ k ≤ 3 ∧ d ≤ 365 ∧ (d = 365 → k = 3) := by
    by_cases hlast : r % 1461 = 1460
    · exact ⟨3, 365, by omega, by omega, by omega, fun _ => rfl⟩
    · exact ⟨r % 1461 / 365, r % 1461 % 365, by omega, by omega, by omega, by omega⟩
  obtain ⟨k, d, hrest, hk, hd, hyear⟩ := hyear
  exact ⟨c, r / 1461, k, d, by omega, hc, by omega, hk, hd,
    fun hleap => ⟨hyear hleap, fun hq => hcentury (by have := hyear hleap; omega)⟩⟩

/-- The computed year is the number of all years in front. -/
theorem yearOfDay_eq {c q k d : Nat} (hc : c ≤ 3) (hq : q ≤ 24) (hk : k ≤ 3) (hd : d ≤ 365)
    (hleap : d = 365 → k = 3 ∧ (q = 24 → c = 3)) :
    yearOfDay (36524 * c + 1461 * q + 365 * k + d) = 100 * c + 4 * q + k := by
  generalize hday : 36524 * c + 1461 * q + 365 * k + d = day
  -- Each quotient counts the cycles in front, but the last day of a cycle may count twice.
  have hshort : day / 1460 = 25 * c + q ∧ 24 * c + q + 365 * k + d < 1460 ∨
      day / 1460 = 25 * c + q + 1 ∧ 1460 ≤ 24 * c + q + 365 * k + d := by omega
  have hlong : day / 36524 = c ∧ day / 146096 = 0 ∨
      c = 3 ∧ day / 36524 = 4 ∧ day / 146096 = 1 := by
    by_cases hlast : day = 146096
    · have hcentury : c = 3 := by omega
      exact .inr ⟨hcentury, by rw [hlast], by rw [hlast]⟩
    · have hlow : 36524 * c ≤ day := by omega
      have hhigh : day < 36524 * c + 36524 := by omega
      have hbelow : day < 146096 := by omega
      clear hleap hday hshort
      exact .inl ⟨by omega, by omega⟩
  have hdays : day - day / 1460 + day / 36524 - day / 146096 + day / 1460 =
      365 * (100 * c + 4 * q + k) + d + (25 * c + q) := by
    rcases hlong with ⟨hcentury, hcycle⟩ | ⟨rfl, hcentury, hcycle⟩
    · rw [hcentury, hcycle]
      omega
    · rw [hcentury, hcycle]
      omega
  unfold yearOfDay
  rcases hshort with ⟨hfour, hbefore⟩ | ⟨hfour, hbehind⟩
  · omega
  · omega

/-- Whether the year that starts in March of a year of the cycle ends with a leap day. -/
def EndsLeap (year : Nat) : Prop :=
  (year + 1) % 4 = 0 ∧ ((year + 1) % 100 = 0 → (year + 1) % 400 = 0)

/-- The computed year is one of the 400, the day lies in it, it is no further into it than a
year is long, and only a leap day is as far into it. -/
theorem yearOfDay_spec {day : Nat} (h : day < 146097) :
    yearOfDay day ≤ 399 ∧
      365 * yearOfDay day + yearOfDay day / 4 - yearOfDay day / 100 ≤ day ∧
      day ≤ 365 * yearOfDay day + yearOfDay day / 4 - yearOfDay day / 100 + 365 ∧
      (day = 365 * yearOfDay day + yearOfDay day / 4 - yearOfDay day / 100 + 365 →
        EndsLeap (yearOfDay day)) := by
  obtain ⟨c, q, k, d, rfl, hc, hq, hk, hd, hleap⟩ := exists_parts h
  have hfour : (100 * c + 4 * q + k) / 4 = 25 * c + q := by omega
  have hhundred : (100 * c + 4 * q + k) / 100 = c := by omega
  rw [yearOfDay_eq hc hq hk hd hleap, hfour, hhundred, EndsLeap]
  omega

/-- The month of a day of a year that starts in March, and the day of that month. -/
theorem monthOfDay_spec {day : Nat} (h : day ≤ 365) :
    (5 * day + 2) / 153 ≤ 11 ∧ (153 * ((5 * day + 2) / 153) + 2) / 5 ≤ day ∧
      day < (153 * ((5 * day + 2) / 153 + 1) + 2) / 5 := by
  omega

/-- A date in the terms it is computed from: cycle, year of the cycle, month from March
and day of the month. The day lies in its month, and a leap day in a year that ends with one. -/
theorem ofDays_spec (days : Int) :
    ∃ (era : Int) (year month day : Nat), year ≤ 399 ∧ month ≤ 11 ∧
      ((153 * month + 2) / 5 + day < (153 * (month + 1) + 2) / 5 ∧
        (153 * month + 2) / 5 + day ≤ 365 ∧
        ((153 * month + 2) / 5 + day = 365 → EndsLeap year)) ∧
      days = era * 146097 + (365 * year + year / 4 - year / 100 : Nat) +
        ((153 * month + 2) / 5 + day : Nat) - 719468 ∧
      Date.ofDays days =
        ⟨if month < 10 then year + era * 400 else year + era * 400 + 1,
          if month < 10 then month + 3 else month - 9, day + 1⟩ := by
  have hfloor : (days + 719468).fdiv 146097 = (days + 719468) / 146097 :=
    Int.fdiv_eq_ediv_of_nonneg _ (by omega)
  have hlt : (days + 719468 - (days + 719468) / 146097 * 146097).toNat < 146097 := by omega
  have hday : days = (days + 719468) / 146097 * 146097 +
      ((days + 719468 - (days + 719468) / 146097 * 146097).toNat : Int) - 719468 := by omega
  unfold Date.ofDays
  simp only [hfloor]
  generalize (days + 719468) / 146097 = era at hlt hday ⊢
  generalize (days + 719468 - era * 146097).toNat = dayOfEra at hlt hday ⊢
  obtain ⟨hyear, hstart, hend, hleap⟩ := yearOfDay_spec hlt
  have hcomputed : (dayOfEra - dayOfEra / 1460 + dayOfEra / 36524 - dayOfEra / 146096) / 365 =
      yearOfDay dayOfEra := rfl
  simp only [hcomputed]
  generalize yearOfDay dayOfEra = year at hyear hstart hend hleap ⊢
  generalize hyears : 365 * year + year / 4 - year / 100 = start at hstart hend hleap ⊢
  have hwithin : dayOfEra - start ≤ 365 := by omega
  obtain ⟨hmonth, hmonthStart, hmonthEnd⟩ := monthOfDay_spec hwithin
  generalize (5 * (dayOfEra - start) + 2) / 153 = month at hmonth hmonthStart hmonthEnd ⊢
  refine ⟨era, year, month, dayOfEra - start - (153 * month + 2) / 5, hyear, hmonth,
    ⟨by omega, by omega, fun hlast => hleap (by omega)⟩, by omega, ?_⟩
  by_cases hten : month < 10
  · simp only [if_pos hten, if_neg (show ¬month + 3 ≤ 2 by omega)]
  · simp only [if_neg hten, if_pos (show month - 9 ≤ 2 by omega)]

/-- The month of a date is one of the twelve, and no month has more than 31 days. -/
theorem ofDays_bounds (days : Int) :
    1 ≤ (Date.ofDays days).month ∧ (Date.ofDays days).month ≤ 12 ∧
      1 ≤ (Date.ofDays days).day ∧ (Date.ofDays days).day ≤ 31 := by
  obtain ⟨era, year, month, day, -, hmonth, ⟨hday, -⟩, -, hdate⟩ := ofDays_spec days
  rw [hdate]
  dsimp only
  refine ⟨?_, ?_, ?_, ?_⟩
  · split <;> omega
  · split <;> omega
  · omega
  · omega

/-- A year that starts in March and ends with a leap day belongs to a leap year. -/
theorem isLeapYear_of_endsLeap {year : Nat} (h : EndsLeap year) (era : Int) :
    isLeapYear (year + era * 400 + 1) = true := by
  obtain ⟨hfour, hhundred⟩ := h
  simp only [isLeapYear, Bool.and_eq_true, Bool.or_eq_true, beq_iff_eq, bne_iff_ne]
  omega

/-- A month, counted from March, is as long as the next one starts behind it, except for the
last one. -/
theorem daysInMonth_of_lt {month : Nat} (h : month < 11) (year : Int) :
    daysInMonth year (if month < 10 then month + 3 else month - 9) =
      (153 * (month + 1) + 2) / 5 - (153 * month + 2) / 5 := by
  have hcases : month = 0 ∨ month = 1 ∨ month = 2 ∨ month = 3 ∨ month = 4 ∨ month = 5 ∨
      month = 6 ∨ month = 7 ∨ month = 8 ∨ month = 9 ∨ month = 10 := by omega
  rcases hcases with rfl | rfl | rfl | rfl | rfl | rfl | rfl | rfl | rfl | rfl | rfl <;> rfl

/-- The date of a day number exists. -/
theorem exists_ofDays (days : Int) : (Date.ofDays days).exists? = true := by
  obtain ⟨era, year, month, day, -, hmonth, ⟨hday, hyearEnd, hleap⟩, -, hdate⟩ := ofDays_spec days
  obtain ⟨hone, htwelve, hfirst, -⟩ := ofDays_bounds days
  have hlength : (Date.ofDays days).day ≤
      daysInMonth (Date.ofDays days).year (Date.ofDays days).month := by
    rw [hdate]
    dsimp only
    by_cases hlast : month < 11
    · rw [daysInMonth_of_lt hlast]
      omega
    · -- February has its 29th day exactly when the year ends with a leap day.
      obtain rfl : month = 11 := by omega
      have hfebruary : ∀ y, daysInMonth y 2 = if isLeapYear y then 29 else 28 := fun _ => rfl
      by_cases hday28 : day = 28
      · have hyear := isLeapYear_of_endsLeap (hleap (by omega)) era
        simp [hfebruary, hyear, hday28]
      · simp only [show ¬11 < 10 by omega, if_false, hfebruary]
        split <;> omega
  simp [Date.exists?, hone, htwelve, hfirst, hlength]

/-- The date of a day number has that day number. -/
theorem toDays_ofDays (days : Int) : (Date.ofDays days).toDays = days := by
  obtain ⟨era, year, month, day, hyear, hmonth, -, hdays, hdate⟩ := ofDays_spec days
  have hera : ((year : Int) + era * 400).fdiv 400 = era := by
    rw [Int.fdiv_eq_ediv_of_nonneg _ (by omega)]
    omega
  have hyearOf : (year : Int) + era * 400 - era * 400 = year := by omega
  rw [hdate, Date.toDays]
  by_cases hten : month < 10
  · have hmod : (month + 3 + 9) % 12 = month := by omega
    simp only [if_pos hten, if_neg (show ¬month + 3 ≤ 2 by omega), hera, hyearOf, hmod]
    omega
  · have hmod : (month - 9 + 9) % 12 = month := by omega
    have hbefore : (year : Int) + era * 400 + 1 - 1 = year + era * 400 := by omega
    simp only [if_neg hten, if_pos (show month - 9 ≤ 2 by omega), hbefore, hera, hyearOf, hmod]
    omega

/-- Two day numbers with the same date are equal. -/
theorem ofDays_injective {days days' : Int} (h : Date.ofDays days = Date.ofDays days') :
    days = days' := by
  rw [← toDays_ofDays days, h, toDays_ofDays]

end FlowTally.Calendar
