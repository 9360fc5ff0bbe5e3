import FlowTally.Time.Text
import Mathlib.Data.Nat.Basic

/-!
# Points in time past the end of a second

The nanoseconds of a point may go up to a second past the end of the second they are counted
from. At the end of a minute this is a leap second, written as second 60. Inside a minute the
next second is written, as it is for the point that lies in that second. The settled form of a
point is the one that is meant where its text is read. It lies on the same day and is written
alike in every form.
-/

namespace FlowTally.Instant

/-- Past the end of a second that is not the last of its minute, the next second is written. -/
theorem clockText_succ (places : Places) {s n : Nat} (hs : s % 60 ≠ 59) :
    clockText places s (n + 1000000000) = clockText places (s + 1) n := by
  have hhour : (s + 1) / 3600 = s / 3600 := by omega
  have hminute : (s + 1) / 60 = s / 60 := by omega
  have hsecond : s % 60 + (n + 1000000000) / 1000000000 = (s + 1) % 60 + n / 1000000000 := by omega
  simp only [clockText, hhour, hminute, hsecond, Nat.add_mod_right]

/-- The seconds of a day are fewer than 86400. -/
theorem secondOfDay_lt (t : Instant) : t.secondOfDay < 86400 := by
  have hfloor : t.second.fmod 86400 = t.second % 86400 :=
    Int.fmod_eq_emod_of_nonneg _ (by omega)
  rw [secondOfDay, hfloor]
  omega

/-- The seconds of a point are those of its days and those of its day. -/
theorem second_eq (t : Instant) : t.second = t.day * 86400 + t.secondOfDay := by
  rw [day, secondOfDay, Int.fdiv_eq_ediv_of_nonneg _ (by omega),
    Int.fmod_eq_emod_of_nonneg _ (by omega)]
  omega

/-- A point in time is its day, its second of the day and its nanoseconds. -/
theorem eq_of_day {t u : Instant} (hday : t.day = u.day)
    (hsecond : t.secondOfDay = u.secondOfDay) (hnano : t.nano = u.nano) : t = u := by
  have hseconds : t.second = u.second := by rw [second_eq t, second_eq u, hday, hsecond]
  cases t
  cases u
  cases hseconds
  cases hnano
  rfl

/-- The second of the day is as far into its minute as the second itself. -/
theorem secondOfDay_mod (t : Instant) : ((t.secondOfDay % 60 : Nat) : Int) = t.second % 60 := by
  have hsecond := t.second_eq
  omega

/-- Whether a point goes past the end of its second only where a minute ends. -/
def IsSettled (t : Instant) : Prop := 1000000000 ≤ t.nano → t.second % 60 = 59

instance : DecidablePred IsSettled :=
  fun t => inferInstanceAs (Decidable (1000000000 ≤ t.nano → t.second % 60 = 59))

/-- The point that is meant by the text of a point: past the end of a second inside a minute it
is in the next second. -/
def settled (t : Instant) : Instant :=
  if h : 1000000000 ≤ t.nano ∧ t.second % 60 ≠ 59 then
    { second := t.second + 1
      nano := t.nano - 1000000000
      nano_lt := lt_of_le_of_lt (Nat.sub_le _ _) t.nano_lt
      earliest_le := by
        have := t.earliest_le
        omega
      le_latest := by
        have := t.le_latest
        omega }
  else t

/-- A point is settled exactly if it is its settled form. -/
theorem settled_eq_self_iff {t : Instant} : t.settled = t ↔ t.IsSettled := by
  constructor
  · intro hself hleap
    by_contra hminute
    rw [settled, dif_pos ⟨hleap, hminute⟩] at hself
    have hsecond : t.second + 1 = t.second := congrArg second hself
    omega
  · intro h
    rw [settled, dif_neg fun hinside => hinside.2 (h hinside.1)]

/-- The first second of the count, half a second past its end. -/
def overrun : Instant := { epoch with nano := 1500000000, nano_lt := by decide }

/-- The settled form of a point is the point, or the same time of the next second of its day. -/
theorem settled_cases (t : Instant) :
    t.IsSettled ∧ t.settled = t ∨
      t.secondOfDay % 60 ≠ 59 ∧ t.settled.day = t.day ∧
        t.settled.secondOfDay = t.secondOfDay + 1 ∧ t.settled.nano + 1000000000 = t.nano := by
  by_cases hinside : 1000000000 ≤ t.nano ∧ t.second % 60 ≠ 59
  · right
    have hminute := t.secondOfDay_mod
    have hsettled : t.settled.second = t.second + 1 ∧ t.settled.nano = t.nano - 1000000000 := by
      rw [settled, dif_pos hinside]
      exact ⟨rfl, rfl⟩
    have hsecond := t.second_eq
    have hsecond' := t.settled.second_eq
    have hlt := t.secondOfDay_lt
    have hlt' := t.settled.secondOfDay_lt
    refine ⟨by omega, by omega, by omega, by omega⟩
  · left
    have hsettled : t.IsSettled := fun hleap => by_contra fun hminute => hinside ⟨hleap, hminute⟩
    exact ⟨hsettled, settled_eq_self_iff.mpr hsettled⟩

/-- A settled form is settled. -/
theorem isSettled_settled (t : Instant) : t.settled.IsSettled := by
  rcases t.settled_cases with ⟨hsettled, heq⟩ | ⟨-, -, -, hnano⟩
  · rwa [heq]
  · intro hleap
    have hlt := t.nano_lt
    omega

/-- The settled form is on the same day. -/
theorem day_settled (t : Instant) : t.settled.day = t.day := by
  rcases t.settled_cases with ⟨-, heq⟩ | ⟨-, hday, -⟩
  · rw [heq]
  · exact hday

/-- A point is written as its settled form is. -/
theorem text_settled (places : Places) (separator : Char) (t : Instant) :
    t.settled.text places separator = t.text places separator := by
  rcases t.settled_cases with ⟨-, heq⟩ | ⟨hminute, hday, hsecond, hnano⟩
  · rw [heq]
  · rw [text, text, hday, hsecond, ← hnano, clockText_succ places hminute]

/-- Points with one settled form are written alike in every form. -/
theorem text_congr {t u : Instant} (h : t.settled = u.settled) (places : Places)
    (separator : Char) : t.text places separator = u.text places separator := by
  rw [← text_settled, h, text_settled]

/-- In a leap second of a settled point the second of the day is the last of its minute. -/
theorem IsSettled.secondOfDay_mod {t : Instant} (h : t.IsSettled) (hleap : 1000000000 ≤ t.nano) :
    t.secondOfDay % 60 = 59 := by
  have hminute := t.secondOfDay_mod
  have hlast := h hleap
  omega

end FlowTally.Instant
