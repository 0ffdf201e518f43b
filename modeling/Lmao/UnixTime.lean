-- `format_unix_ms` (task.rs of the cli crate) with the types of its values: the
-- date and the time of a timestamp, as the history listing shows them.
import Lmao.Gregorian
import Mathlib.Algebra.Group.Int.Defs

namespace lmao.cli.task

/-- A number with at least `width` digits. -/
def padded (width n : Nat) : String :=
  String.ofList (List.leftpad width '0' (Nat.toDigits 10 n))

namespace typed

/-! ## The code -/

/-- A value of the type `i64`, or nothing for one that does not fit. -/
def i64 (x : Int) : Option Int := if -2 ^ 63 ≤ x ∧ x < 2 ^ 63 then some x else none

def i32 (x : Int) : Option Int := if -2 ^ 31 ≤ x ∧ x < 2 ^ 31 then some x else none

def u32 (x : Int) : Option Nat := if 0 ≤ x ∧ x < 2 ^ 32 then some x.toNat else none

/-- The era of 400 years, and the day in it. -/
def era_of_days (days : Int) : Option (Int × Nat) := do
  let z ← i64 (days + 719468)
  let shifted ← (if z ≥ 0 then some z else i64 (z - 146096))
  let era := shifted.tdiv 146097
  let start ← i64 (era * 146097)
  let rest ← i64 (z - start)
  let doe ← u32 rest
  some (era, doe)

/-- The year of the era, from March on. -/
def year_of_era (doe : Nat) : Option Nat := do
  let days ← u32 (doe - ↑(doe / 1460))
  let days ← u32 (days + ↑(doe / 36524))
  let days ← u32 (days - ↑(doe / 146096))
  some (days / 365)

/-- The day of that year. -/
def day_of_year (doe yoe : Nat) : Option Nat := do
  let days ← u32 (365 * yoe)
  let days ← u32 (days + ↑(yoe / 4))
  let days ← u32 (days - ↑(yoe / 100))
  u32 (doe - days)

/-- The month and the day of a day of a year from March on. -/
def month_day (doy : Nat) : Option (Nat × Nat) := do
  let n ← u32 (5 * doy)
  let n ← u32 (n + 2)
  let mp := n / 153
  let days ← u32 (153 * mp)
  let days ← u32 (days + 2)
  let d ← u32 (doy - ↑(days / 5))
  let d ← u32 (d + 1)
  let m ← (if mp < 10 then u32 (mp + 3) else u32 (mp - 9))
  some (m, d)

/-- Year, month and day. There is nothing where a value on the way leaves its type. -/
def ymd_from_days (days : Int) : Option (Int × Nat × Nat) := do
  let (era, doe) ← era_of_days days
  let yoe ← year_of_era doe
  let eras ← i32 era
  let years ← i32 (eras * 400)
  let yoe_i32 ← i32 yoe
  let y ← i32 (yoe_i32 + years)
  let doy ← day_of_year doe yoe
  let (m, d) ← month_day doy
  let y ← (if m ≤ 2 then i32 (y + 1) else some y)
  some (y, m, d)

/-- What the text of a timestamp is made of. -/
structure DateTime where
  y : Int
  mo : Nat
  d : Nat
  h : Nat
  m : Nat
  s : Nat
deriving DecidableEq, Repr

def date_time (ms : UInt64) : Option DateTime := do
  let secs := ms.toNat / 1000
  let days ← i64 ↑(secs / 86400)
  let sod := secs % 86400
  let (y, mo, d) ← ymd_from_days days
  some { y, mo, d, h := sod / 3600, m := sod % 3600 / 60, s := sod % 60 }

/-- `YYYY-MM-DD HH:MM:SS` UTC. A sign counts for the width of the year. -/
def format_unix_ms (ms : UInt64) : Option String := do
  let t ← date_time ms
  let year := if t.y < 0 then "-" ++ padded 3 t.y.natAbs else padded 4 t.y.natAbs
  some (year ++ "-" ++ padded 2 t.mo ++ "-" ++ padded 2 t.d ++ " " ++ padded 2 t.h ++ ":" ++
    padded 2 t.m ++ ":" ++ padded 2 t.s ++ "Z")

example : format_unix_ms 951782399000 = some "2000-02-28 23:59:59Z" := by decide +kernel

/-! ## The days -/

open gregorian

theorem i64_some (x : Int) (h : -2 ^ 63 ≤ x ∧ x < 2 ^ 63) : i64 x = some x := if_pos h

theorem i32_some (x : Int) (h : -2 ^ 31 ≤ x ∧ x < 2 ^ 31) : i32 x = some x := if_pos h

theorem u32_some {x : Int} (n : Nat) (h : x = n) (hn : n < 2 ^ 32) : u32 x = some n := by
  subst h
  unfold u32
  rw [if_pos (by omega), Int.toNat_natCast]

/-- Until 2^38 days after the epoch everything fits. -/
theorem era_of_days_eq {days era doe : Nat} (hdays : days < 2 ^ 38) (hdoe : doe < 146097)
    (h : days + 719468 = 146097 * era + doe) : era_of_days days = some (↑era, doe) := by
  have hnonneg : (days : Int) + 719468 ≥ 0 := by omega
  have hera : ((days : Int) + 719468).tdiv 146097 = era := by
    rw [Int.tdiv_eq_ediv_of_nonneg hnonneg]
    omega
  unfold era_of_days
  simp only [Option.bind_eq_bind, Option.bind_eq_some_iff]
  refine ⟨_, i64_some _ (by omega), _, if_pos hnonneg, _, i64_some _ (by omega), _,
    i64_some _ (by omega), doe, u32_some doe (by omega) (by omega), ?_⟩
  rw [hera]

theorem year_of_era_eq {doe : Nat} (h : doe < 146097) :
    year_of_era doe = some (common_days doe / 365) := by
  unfold year_of_era
  simp only [Option.bind_eq_bind, Option.bind_eq_some_iff]
  exact ⟨_, u32_some (doe - doe / 1460) (by omega) (by omega), _,
    u32_some (doe - doe / 1460 + doe / 36524) (by omega) (by omega), _,
    u32_some (doe - doe / 1460 + doe / 36524 - doe / 146096) (by omega) (by omega), rfl⟩

theorem day_of_year_eq {yoe doy : Nat} (hyoe : yoe < 400) (hdoy : doy ≤ 365) :
    day_of_year (march_start yoe + doy) yoe = some doy := by
  have hstart : march_start yoe = 365 * yoe + yoe / 4 - yoe / 100 := by
    unfold march_start
    omega
  unfold day_of_year
  rw [hstart]
  simp only [Option.bind_eq_bind, Option.bind_eq_some_iff]
  exact ⟨_, u32_some (365 * yoe) (by omega) (by omega), _,
    u32_some (365 * yoe + yoe / 4) (by omega) (by omega), _,
    u32_some (365 * yoe + yoe / 4 - yoe / 100) (by omega) (by omega),
    u32_some doy (by omega) (by omega)⟩

theorem month_day_eq {doy : Nat} (h : doy ≤ 365) :
    month_day doy = some (date_month doy, date_day doy) := by
  obtain ⟨hlow, -⟩ := march_month_bounds doy
  unfold march_month_start at hlow
  have hmonth : march_month doy ≤ 11 := by
    unfold march_month
    omega
  have hm : (if march_month doy < 10 then u32 (march_month doy + 3)
      else u32 (march_month doy - 9)) = some (date_month doy) := by
    unfold date_month
    split
    · exact u32_some _ (by omega) (by omega)
    · exact u32_some _ (by omega) (by omega)
  unfold month_day
  simp only [Option.bind_eq_bind, Option.bind_eq_some_iff]
  exact ⟨_, u32_some (5 * doy) (by omega) (by omega), _,
    u32_some (5 * doy + 2) (by omega) (by omega), _,
    u32_some (153 * march_month doy) rfl (by omega), _,
    u32_some (153 * march_month doy + 2) (by omega) (by omega), _,
    u32_some (doy - (153 * march_month doy + 2) / 5) (by omega) (by omega), _,
    u32_some (date_day doy) rfl (by unfold date_day; omega), _, hm, rfl⟩

/-- Where a day is: in an era, in a year of the era and on a day of that year, all
from March on. -/
structure Placed (days era yoe doy : Nat) : Prop where
  year : yoe < 400
  day : march_start yoe + doy < march_start (yoe + 1)
  sum : days + 719468 = 146097 * era + (march_start yoe + doy)

theorem exists_placed (days : Nat) : ∃ era yoe doy, Placed days era yoe doy := by
  obtain ⟨yoe, hyoe, hlow, hhigh⟩ :=
    exists_year (show (days + 719468) % 146097 < march_start 400 from Nat.mod_lt _ (by decide))
  obtain ⟨doy, hdoy⟩ := Nat.exists_eq_add_of_le hlow
  rw [hdoy] at hhigh
  exact ⟨(days + 719468) / 146097, yoe, doy, hyoe, hhigh, by omega⟩

variable {days era yoe doy : Nat}

theorem Placed.doe_lt (h : Placed days era yoe doy) : march_start yoe + doy < 146097 :=
  have hend : march_start (yoe + 1) ≤ 146097 := march_start_mono (Nat.succ_le_of_lt h.year)
  Nat.lt_of_lt_of_le h.day hend

theorem Placed.doy_le (h : Placed days era yoe doy) : doy ≤ 365 := by
  have hday := h.day
  rw [march_start_succ] at hday
  split at hday <;> omega

theorem Placed.yoe_eq (h : Placed days era yoe doy) :
    common_days (march_start yoe + doy) / 365 = yoe :=
  common_days_div h.year (Nat.le_add_right _ doy) h.day

/-- January and February are in the year after the one that they end. -/
theorem date_year_eq (y doy : Nat) (hdoy : doy ≤ 365) :
    date_year y doy = if date_month doy ≤ 2 then y + 1 else y := by
  have hmonth : march_month doy ≤ 11 := by
    unfold march_month
    omega
  unfold date_month date_year
  by_cases hten : march_month doy < 10
  · rw [if_pos hten, if_pos hten, if_neg (by omega)]
  · rw [if_neg hten, if_neg hten, if_pos (by omega)]

/-- The date is the one of the place of the day, until 2^38 days after the epoch. -/
theorem Placed.ymd_from_days (h : Placed days era yoe doy) (hdays : days < 2 ^ 38) :
    ymd_from_days days =
      some (↑(date_year (400 * era + yoe) doy), date_month doy, date_day doy) := by
  have hsum := h.sum
  have hyoe := h.year
  have hyear := year_of_era_eq h.doe_lt
  rw [h.yoe_eq] at hyear
  have hy : (if date_month doy ≤ 2 then i32 (↑(400 * era + yoe) + 1)
      else some (↑(400 * era + yoe) : Int)) = some ↑(date_year (400 * era + yoe) doy) := by
    rw [date_year_eq _ _ h.doy_le]
    split
    · exact i32_some _ (by omega)
    · rfl
  have hyears : (yoe : Int) + era * 400 = ↑(400 * era + yoe) := by omega
  have hi32 := i32_some (yoe + era * 400) (by omega)
  rw [hyears] at hi32
  unfold typed.ymd_from_days
  simp only [Option.bind_eq_bind, Option.bind_eq_some_iff]
  refine ⟨_, era_of_days_eq hdays h.doe_lt hsum, yoe, hyear, _, i32_some _ (by omega), _,
    i32_some _ (by omega), _, i32_some _ (by omega), ↑(400 * era + yoe), ?_, doy,
    day_of_year_eq hyoe h.doy_le, _, month_day_eq h.doy_le, _, hy, rfl⟩
  rw [hyears]
  exact hi32

/-- The day is as many days after the epoch as it should be. -/
theorem Placed.date (h : Placed days era yoe doy) :
    1970 ≤ date_year (400 * era + yoe) doy ∧
      IsDate (date_year (400 * era + yoe) doy) (date_month doy) (date_day doy) ∧
      days_since 1970 (date_year (400 * era + yoe) doy) (date_month doy) (date_day doy) =
        days := by
  have hsum := h.sum
  have hday := h.day
  have hepoch : march_start 1969 = 719162 := rfl
  obtain ⟨hyear, hdate, hcount⟩ := date_of_day 1969 (400 * era + yoe) doy
    (by rw [Nat.add_assoc (400 * era), march_start_add_era, march_start_add_era]; omega)
    (by rw [march_start_add_era]; omega)
  simp only [march_start_add_era, Nat.reduceAdd] at hcount
  exact ⟨hyear, hdate, by omega⟩

/-! ## Timestamps -/

/-- The date and the time stand for `secs` seconds after the epoch. -/
structure DateTime.IsAt (t : DateTime) (secs : Nat) : Prop where
  date : ∃ year : Nat, t.y = year ∧ 1970 ≤ year ∧ IsDate year t.mo t.d ∧
    days_since 1970 year t.mo t.d * 86400 + (t.h * 3600 + t.m * 60 + t.s) = secs
  hour : t.h < 24
  minute : t.m < 60
  second : t.s < 60

theorem Placed.date_time {ms : UInt64} (h : Placed (ms.toNat / 1000 / 86400) era yoe doy) :
    date_time ms = some {
      y := ↑(date_year (400 * era + yoe) doy), mo := date_month doy, d := date_day doy
      h := ms.toNat / 1000 % 86400 / 3600
      m := ms.toNat / 1000 % 86400 % 3600 / 60
      s := ms.toNat / 1000 % 86400 % 60 } := by
  have hms := ms.toNat_lt
  unfold typed.date_time
  simp only [Option.bind_eq_bind, Option.bind_eq_some_iff]
  exact ⟨_, i64_some _ (by omega), _, h.ymd_from_days (by omega), rfl⟩

theorem format_unix_ms_isSome (ms : UInt64) : (format_unix_ms ms).isSome := by
  obtain ⟨era, yoe, doy, h⟩ := exists_placed (ms.toNat / 1000 / 86400)
  unfold format_unix_ms
  rw [h.date_time]
  rfl

/-- The text that the listing shows, which is there for every timestamp. -/
def timestamp (ms : UInt64) : String := (format_unix_ms ms).get (format_unix_ms_isSome ms)

/-- Every timestamp is shown as its date and its time, and no value on the way
leaves its type. -/
theorem a_timestamp_is_its_date_and_time (ms : UInt64) :
    ∃ t, date_time ms = some t ∧ t.IsAt (ms.toNat / 1000) := by
  obtain ⟨era, yoe, doy, h⟩ := exists_placed (ms.toNat / 1000 / 86400)
  obtain ⟨hyear, hdate, hdays⟩ := h.date
  refine ⟨_, h.date_time, ⟨_, rfl, hyear, hdate, ?_⟩, ?_, ?_, ?_⟩ <;> dsimp only <;> omega

end typed

end lmao.cli.task
