-- The proleptic Gregorian calendar: dates, and the days between them. Years that
-- begin in March put the leap day last, so that a day has its year and its month
-- by division.
import Mathlib.Algebra.Group.Nat.Defs

namespace gregorian

/-! ## Dates -/

def Leap (year : Nat) : Prop := year % 4 = 0 ∧ (year % 100 ≠ 0 ∨ year % 400 = 0)

instance (year : Nat) : Decidable (Leap year) :=
  inferInstanceAs (Decidable (year % 4 = 0 ∧ (year % 100 ≠ 0 ∨ year % 400 = 0)))

def month_length (year month : Nat) : Nat :=
  if month = 2 then (if Leap year then 29 else 28)
  else if month = 4 ∨ month = 6 ∨ month = 9 ∨ month = 11 then 30
  else 31

/-- The days of the first `n` months of a year. -/
def days_in_months (year : Nat) : Nat → Nat
  | 0 => 0
  | n + 1 => days_in_months year n + month_length year (n + 1)

/-- The days of `n` years from the year `first` on. -/
def days_in_years (first : Nat) : Nat → Nat
  | 0 => 0
  | n + 1 => days_in_years first n + days_in_months (first + n) 12

/-- The days from the first of January of the year `first` to a date. -/
def days_since (first year month day : Nat) : Nat :=
  days_in_years first (year - first) + days_in_months year (month - 1) + (day - 1)

/-- There is such a date. -/
structure IsDate (year month day : Nat) : Prop where
  month_pos : 1 ≤ month
  month_le : month ≤ 12
  day_pos : 1 ≤ day
  day_le : day ≤ month_length year month

/-! ## Years from March on -/

/-- The days from the first of March of the year 0 to that of the year `y`. -/
def march_start (y : Nat) : Nat := 365 * y + y / 4 - y / 100 + y / 400

theorem leap_iff (year : Nat) : Leap year ↔ 4 ∣ year ∧ (¬ 100 ∣ year ∨ 400 ∣ year) := by
  simp only [Leap, Nat.dvd_iff_mod_eq_zero, ne_eq]

theorem march_start_succ (y : Nat) :
    march_start (y + 1) = march_start y + 365 + if Leap (y + 1) then 1 else 0 := by
  have hcentury : y / 100 ≤ y := Nat.div_le_self y 100
  unfold march_start
  rw [Nat.succ_div, Nat.succ_div, Nat.succ_div]
  by_cases hquad : 4 ∣ y + 1
  · by_cases hcent : 100 ∣ y + 1
    · by_cases hera : 400 ∣ y + 1 <;> simp only [leap_iff, hquad, hcent, hera, not_true_eq_false,
        or_true, or_false, and_true, and_false, if_true, if_false] <;> omega
    · have hera : ¬ 400 ∣ y + 1 := fun h => hcent (Nat.dvd_trans (by decide) h)
      simp only [leap_iff, hquad, hcent, hera, not_false_eq_true, true_or, and_true, if_true,
        if_false]
      omega
  · have hcent : ¬ 100 ∣ y + 1 := fun h => hquad (Nat.dvd_trans (by decide) h)
    have hera : ¬ 400 ∣ y + 1 := fun h => hquad (Nat.dvd_trans (by decide) h)
    simp only [leap_iff, hquad, hcent, hera, false_and, if_false]
    omega

theorem march_start_mono {x y : Nat} (h : x ≤ y) : march_start x ≤ march_start y := by
  induction h with
  | refl => exact Nat.le_refl _
  | step _ ih =>
    rw [march_start_succ]
    omega

/-- Each day is in a year. -/
theorem exists_year {n day : Nat} (h : day < march_start n) :
    ∃ y < n, march_start y ≤ day ∧ day < march_start (y + 1) := by
  induction n with
  | zero => exact absurd h (Nat.not_lt_zero day)
  | succ n ih =>
    by_cases hn : day < march_start n
    · obtain ⟨y, hy, hday⟩ := ih hn
      exact ⟨y, Nat.lt_succ_of_lt hy, hday⟩
    · exact ⟨n, Nat.lt_succ_self n, Nat.le_of_not_lt hn, h⟩

theorem march_start_add_era (era y : Nat) :
    march_start (400 * era + y) = 146097 * era + march_start y := by
  unfold march_start
  omega

theorem days_in_twelve_months (year : Nat) :
    days_in_months year 12 = 365 + if Leap year then 1 else 0 := by
  by_cases hleap : Leap year <;> simp [days_in_months, month_length, hleap]

/-- The first of January is 306 days after the first of March before it. -/
theorem days_in_years_eq (first n : Nat) :
    march_start first + days_in_years (first + 1) n = march_start (first + n) := by
  induction n with
  | zero => rfl
  | succ n ih =>
    rw [days_in_years, days_in_twelve_months, ← Nat.add_assoc, ih, ← Nat.add_assoc first n 1,
      march_start_succ, Nat.add_right_comm first 1 n, Nat.add_assoc (march_start _)]

/-! ## The year of a day by division -/

/-- The days of an era but for the leap days, of which there is one in four
years, none at the end of a century, and one at the end of the era. -/
def common_days (day : Nat) : Nat := day - day / 1460 + day / 36524 - day / 146096

theorem common_days_mono {a b : Nat} (h : a ≤ b) (hb : b < 146097) :
    common_days a ≤ common_days b := by
  induction h with
  | refl => exact Nat.le_refl _
  | step _ ih =>
    apply Nat.le_trans (ih (Nat.lt_of_succ_lt hb))
    unfold common_days
    omega

/-- At the ends of each of the 400 years. -/
theorem common_days_ends : ∀ y < 400, 365 * y ≤ common_days (march_start y) ∧
    common_days (march_start (y + 1) - 1) < 365 * (y + 1) := by
  decide +kernel

theorem common_days_div {day y : Nat} (hy : y < 400) (hlow : march_start y ≤ day)
    (hhigh : day < march_start (y + 1)) : common_days day / 365 = y := by
  have hera : march_start (y + 1) ≤ 146097 := march_start_mono (Nat.succ_le_of_lt hy)
  obtain ⟨hfirst, hlast⟩ := common_days_ends y hy
  have hfrom := common_days_mono hlow (Nat.lt_of_lt_of_le hhigh hera)
  have hto := common_days_mono (Nat.le_sub_one_of_lt hhigh) (by omega)
  omega

/-! ## Dates in years from March on -/

/-- The month of a day of such a year, from 0 for March on. -/
def march_month (day_of_year : Nat) : Nat := (5 * day_of_year + 2) / 153

/-- The days of the year before that month. -/
def march_month_start (m : Nat) : Nat := (153 * m + 2) / 5

/-- The date of the day of a year that begins in March. -/
def date_year (y day_of_year : Nat) : Nat := if march_month day_of_year < 10 then y else y + 1

def date_month (day_of_year : Nat) : Nat :=
  if march_month day_of_year < 10 then march_month day_of_year + 3
  else march_month day_of_year - 9

def date_day (day_of_year : Nat) : Nat :=
  day_of_year - march_month_start (march_month day_of_year) + 1

variable {y day_of_year : Nat}

theorem march_month_bounds (day_of_year : Nat) :
    march_month_start (march_month day_of_year) ≤ day_of_year ∧
      day_of_year < march_month_start (march_month day_of_year + 1) := by
  unfold march_month_start march_month
  omega

/-- The months from March to December. -/
theorem march_month_start_eq (y : Nat) {m : Nat} (h : m < 10) :
    days_in_months y (m + 2) = days_in_months y 2 + march_month_start m ∧
      march_month_start (m + 1) = march_month_start m + month_length y (m + 3) := by
  rcases m with _ | _ | _ | _ | _ | _ | _ | _ | _ | _ | m <;>
    first | exact ⟨rfl, rfl⟩ | omega

/-- From March to December the date is in the year itself, after the days of
January and February. -/
theorem date_before_january (hmonth : march_month day_of_year < 10) :
    IsDate y (date_month day_of_year) (date_day day_of_year) ∧
      days_in_months y (date_month day_of_year - 1) + (date_day day_of_year - 1) =
        days_in_months y 2 + day_of_year := by
  obtain ⟨hlow, hhigh⟩ := march_month_bounds day_of_year
  obtain ⟨hstart, hlength⟩ := march_month_start_eq y hmonth
  unfold date_month date_day
  rw [if_pos hmonth]
  refine ⟨⟨by omega, by omega, by omega, ?_⟩, ?_⟩
  · omega
  · have hbefore : march_month day_of_year + 3 - 1 = march_month day_of_year + 2 := by omega
    rw [hbefore, hstart]
    omega

/-- In January and February it is in the next year. -/
theorem date_from_january (hmonth : ¬ march_month day_of_year < 10)
    (hday : day_of_year < 365 + if Leap (y + 1) then 1 else 0) :
    IsDate (y + 1) (date_month day_of_year) (date_day day_of_year) ∧
      306 + days_in_months (y + 1) (date_month day_of_year - 1) + (date_day day_of_year - 1) =
        day_of_year := by
  have hle : day_of_year ≤ 365 := by
    split at hday <;> omega
  obtain ⟨hlow, hhigh⟩ := march_month_bounds day_of_year
  have hmonths : march_month day_of_year = 10 ∨ march_month day_of_year = 11 := by
    unfold march_month at hmonth ⊢
    omega
  unfold date_month date_day
  rw [if_neg hmonth]
  rcases hmonths with hten | heleven
  · have hjanuary : march_month_start 10 = 306 := rfl
    have hfebruary : march_month_start (10 + 1) = 337 := rfl
    rw [hten, hjanuary] at hlow
    rw [hten, hfebruary] at hhigh
    rw [hten, hjanuary]
    refine ⟨⟨by omega, by omega, by omega, ?_⟩, ?_⟩
    · change _ ≤ 31
      omega
    · change 306 + 0 + _ = _
      omega
  · have hfebruary : march_month_start 11 = 337 := rfl
    rw [heleven, hfebruary] at hlow
    rw [heleven, hfebruary]
    refine ⟨⟨by omega, by omega, by omega, ?_⟩, ?_⟩
    · change _ ≤ if Leap (y + 1) then 29 else 28
      by_cases hleap : Leap (y + 1)
      · rw [if_pos hleap] at hday ⊢
        omega
      · rw [if_neg hleap] at hday ⊢
        omega
    · change 306 + 31 + _ = _
      omega

/-- The date of a day that is counted from the first of March of the year 0: it
is a date, and as many days after the first of January of a year `first + 1`. -/
theorem date_of_day (first y day_of_year : Nat)
    (hday : march_start y + day_of_year < march_start (y + 1))
    (hfirst : march_start first + 306 ≤ march_start y + day_of_year) :
    first + 1 ≤ date_year y day_of_year ∧
      IsDate (date_year y day_of_year) (date_month day_of_year) (date_day day_of_year) ∧
      march_start first + 306 + days_since (first + 1) (date_year y day_of_year)
        (date_month day_of_year) (date_day day_of_year) = march_start y + day_of_year := by
  have hle : first ≤ y := Nat.le_of_not_lt fun hlt => by
    have hmono := march_start_mono (Nat.succ_le_of_lt hlt)
    rw [Nat.succ_eq_add_one] at hmono
    omega
  rw [march_start_succ] at hday
  unfold date_year days_since
  by_cases hmonth : march_month day_of_year < 10
  · have hlt : first < y := Nat.lt_of_le_of_ne hle fun heq => by
      rw [heq] at hfirst
      unfold march_month at hmonth
      omega
    obtain ⟨hdate, hdays⟩ := date_before_january (y := y) hmonth
    obtain ⟨n, rfl⟩ := Nat.exists_eq_add_of_le (show first + 1 ≤ y from hlt)
    have hyears := days_in_years_eq first n
    have hlast := march_start_succ (first + n)
    have htwo : days_in_months (first + 1 + n) 2 = 59 + if Leap (first + 1 + n) then 1 else 0 := by
      by_cases hleap : Leap (first + 1 + n) <;> simp [days_in_months, month_length, hleap]
    rw [Nat.add_right_comm first n 1] at hlast
    rw [if_pos hmonth]
    refine ⟨by omega, hdate, ?_⟩
    rw [Nat.add_sub_cancel_left]
    omega
  · have hin : day_of_year < 365 + if Leap (y + 1) then 1 else 0 := by omega
    obtain ⟨hdate, hdays⟩ := date_from_january hmonth hin
    obtain ⟨n, rfl⟩ := Nat.exists_eq_add_of_le hle
    have hyears := days_in_years_eq first n
    rw [if_neg hmonth]
    refine ⟨by omega, hdate, ?_⟩
    rw [Nat.add_right_comm first n 1, Nat.add_sub_cancel_left, Nat.add_right_comm first 1 n]
    omega

end gregorian
