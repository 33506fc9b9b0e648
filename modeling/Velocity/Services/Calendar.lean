import Mathlib.Algebra.Group.Int.Defs
import Velocity.Lib.Gregorian
import Velocity.Services.CronSearch

namespace Velocity

open Lib Lib.Gregorian Date

/-!
# The calendar of the schedules

`days_to_ymd` takes years and then months off a number of days.
-/

/-! ### The source's calendar -/

def isLeapYear (year : Int) : Bool :=
  (year % 4 == 0 && year % 100 != 0) || year % 400 == 0

def asI64 (n : UInt64) : Int := if n.toNat < 2 ^ 63 then n.toNat else n.toNat - 2 ^ 64

/-- At most so many rounds over the years. -/
def yearLoop : Nat → Int → Int → Int × Int
  | 0, year, remaining => (year, remaining)
  | rounds + 1, year, remaining =>
    let daysInYear := if isLeapYear year then 366 else 365
    if remaining < daysInYear then (year, remaining)
    else yearLoop rounds (year + 1) (remaining - daysInYear)

def monthDays (year : Int) : List Int :=
  if isLeapYear year then [31, 29, 31, 30, 31, 30, 31, 31, 30, 31, 30, 31]
  else [31, 28, 31, 30, 31, 30, 31, 31, 30, 31, 30, 31]

def monthLoop : List Int → UInt32 → Int → UInt32 × Int
  | [], month, remaining => (month, remaining)
  | md :: mds, month, remaining =>
    if remaining < md then (month, remaining) else monthLoop mds (month + 1) (remaining - md)

def daysToYmd (days : UInt64) : UInt32 × UInt32 × UInt32 :=
  let remaining := asI64 days
  let (year, remaining) := yearLoop (remaining.toNat / 365 + 1) 1970 remaining
  let (month, remaining) := monthLoop (monthDays year) 1 remaining
  (UInt32.ofInt year, month, UInt32.ofInt remaining + 1)

structure DateTimeComponents where
  second : UInt32
  minute : UInt32
  hour : UInt32
  day : UInt32
  month : UInt32
  dow : UInt32
  deriving DecidableEq, Repr

def epochSecsToComponents (secs : UInt64) : DateTimeComponents :=
  let days := secs / 86400
  let (_, month, day) := daysToYmd days
  { second := (secs % 60).toUInt32
    minute := (secs % 3600 / 60).toUInt32
    hour := (secs % 86400 / 3600).toUInt32
    day := day
    month := month
    dow := ((days + 4) % 7).toUInt32 }

example : daysToYmd 19782 = (2024, 2, 29) := by decide +kernel

/-! ### The loops -/

theorem isLeapYear_iff (y : Nat) : isLeapYear y = true ↔ IsLeap y := by
  simp only [isLeapYear, IsLeap, Bool.or_eq_true, Bool.and_eq_true, beq_iff_eq, bne_iff_ne]
  omega

theorem daysInYear_eq (y : Nat) :
    (if isLeapYear y then (366 : Int) else 365) = (yearLength y : Nat) := by
  rw [yearLength]
  by_cases h : IsLeap y
  · rw [if_pos ((isLeapYear_iff y).mpr h), if_pos h]
    rfl
  · rw [if_neg (fun hleap => h ((isLeapYear_iff y).mp hleap)), if_neg h]
    rfl

theorem yearLoop_spec {rounds y r : Nat} (hrounds : r / 365 < rounds) :
    ∃ y' r' : Nat, yearLoop rounds y r = ((y' : Int), (r' : Int)) ∧ r' < yearLength y'
      ∧ daysBeforeYear y' + r' = daysBeforeYear y + r := by
  induction rounds generalizing y r with
  | zero => exact absurd hrounds (Nat.not_lt_zero _)
  | succ rounds ih =>
    have hlen := yearLength_bounds y
    rw [yearLoop, daysInYear_eq]
    by_cases hlt : r < yearLength y
    · rw [if_pos (Int.ofNat_lt.mpr hlt)]
      exact ⟨y, r, rfl, hlt, rfl⟩
    · rw [if_neg (fun h => hlt (Int.ofNat_lt.mp h)), ← Int.ofNat_sub (Nat.le_of_not_lt hlt)]
      have hrest : (r - yearLength y) / 365 < rounds := by omega
      obtain ⟨y', r', heq, hlt', hsum⟩ := @ih (y + 1) _ hrest
      refine ⟨y', r', heq, hlt', ?_⟩
      rw [hsum, daysBeforeYear_succ]
      omega

theorem monthDays_eq (y : Nat) :
    monthDays y = (List.range' 1 12).map (fun m => (monthLength y m : Int)) := by
  rw [monthDays]
  by_cases h : IsLeap y
  · rw [if_pos ((isLeapYear_iff y).mpr h)]
    simp [List.range', monthLength, h]
  · rw [if_neg (fun hleap => h ((isLeapYear_iff y).mp hleap))]
    simp [List.range', monthLength, h]

theorem monthLoop_spec {y : Nat} (n : Nat) {m r : Nat} (hm : 1 ≤ m) (hn : m + n = 13)
    (hr : daysBeforeMonth y m + r < yearLength y) :
    ∃ m' r' : Nat, monthLoop ((List.range' m n).map (fun m => (monthLength y m : Int)))
        (UInt32.ofNat m) r = (UInt32.ofNat m', (r' : Int))
      ∧ 1 ≤ m' ∧ m' ≤ 12 ∧ r' < monthLength y m'
      ∧ daysBeforeMonth y m' + r' = daysBeforeMonth y m + r := by
  induction n generalizing m r with
  | zero =>
    rw [show m = 13 from hn, daysBeforeMonth_thirteen] at hr
    omega
  | succ n ih =>
    rw [List.range'_succ, List.map_cons, monthLoop]
    by_cases hlt : r < monthLength y m
    · rw [if_pos (Int.ofNat_lt.mpr hlt)]
      exact ⟨m, r, rfl, hm, by omega, hlt, rfl⟩
    · have hnext : UInt32.ofNat m + 1 = UInt32.ofNat (m + 1) := (UInt32.ofNat_add m 1).symm
      rw [if_neg (fun h => hlt (Int.ofNat_lt.mp h)), ← Int.ofNat_sub (Nat.le_of_not_lt hlt), hnext]
      have hsum : daysBeforeMonth y (m + 1) + (r - monthLength y m) = daysBeforeMonth y m + r := by
        rw [daysBeforeMonth_succ y hm]
        omega
      obtain ⟨m', r', heq, hpos, hle, hlt', hsum'⟩ :=
        @ih (m + 1) (r - monthLength y m) (Nat.succ_pos m) (by omega) (by omega)
      exact ⟨m', r', heq, hpos, hle, hlt', hsum'.trans hsum⟩

theorem ofInt_natCast (n : Nat) : UInt32.ofInt n = UInt32.ofNat n := by
  rw [UInt32.ofInt, ← UInt32.toNat_inj, UInt32.toNat_ofNat', UInt32.toNat_ofNat']
  omega

/-- **The date of a day**, for the days that an `i64` holds. -/
theorem daysToYmd_eq {days : UInt64} (hdays : days.toNat < 2 ^ 63) :
    daysToYmd days = (UInt32.ofNat (next^[days.toNat] .epoch).year,
      UInt32.ofNat (next^[days.toNat] .epoch).month,
      UInt32.ofNat (next^[days.toNat] .epoch).day) := by
  obtain ⟨y, r, hyear, hr, hysum⟩ := @yearLoop_spec (days.toNat / 365 + 1) 1970 days.toNat
    (Nat.lt_succ_self _)
  have hzero : daysBeforeMonth y 1 = 0 := rfl
  obtain ⟨m, r', hmonth, hm, hm', hr', hmsum⟩ :=
    @monthLoop_spec y 12 1 r (Nat.le_refl 1) rfl (by omega)
  have hdate : (⟨y, m, r' + 1, hm, hm', Nat.succ_pos r', hr'⟩ : Date)
      = next^[days.toNat] .epoch := by
    rw [eq_iterate_next_iff]
    show daysBeforeYear y + daysBeforeMonth y m + r' = daysBeforeYear 1970 + 0 + 0 + days.toNat
    omega
  have hyear : yearLoop (days.toNat / 365 + 1) 1970 days.toNat = ((y : Int), (r : Int)) := hyear
  have hmonth : monthLoop (monthDays y) 1 r = (UInt32.ofNat m, (r' : Int)) :=
    (monthDays_eq y).symm ▸ hmonth
  have hday : UInt32.ofNat r' + 1 = UInt32.ofNat (r' + 1) := (UInt32.ofNat_add r' 1).symm
  rw [← hdate, daysToYmd, asI64, if_pos hdays]
  simp only [Int.toNat_natCast, hyear, hmonth, ofInt_natCast, hday]

theorem toNat_lt_of_year_lt {days : UInt64}
    (hyear : (next^[days.toNat] .epoch).year < 2 ^ 31) : days.toNat < 2 ^ 63 := by
  have hlt := (next^[days.toNat] epoch).dayNumber_lt
  have hmono := daysBeforeYear_mono (Nat.succ_le_of_lt hyear)
  rw [dayNumber_iterate_next] at hlt
  have hbound : daysBeforeYear (2 ^ 31) < 2 ^ 63 := by decide
  have hsucc : daysBeforeYear ((next^[days.toNat] epoch).year + 1)
      ≤ daysBeforeYear (2 ^ 31) := hmono
  omega

theorem toNat_month_day (date : Date) :
    (UInt32.ofNat date.month).toNat = date.month ∧ (UInt32.ofNat date.day).toNat = date.day := by
  have hsize : UInt32.size = 4294967296 := rfl
  have hmonth := date.month_le
  have hday := date.day_le
  have hlen := (monthLength_bounds date.year date.month).2
  exact ⟨UInt32.toNat_ofNat_of_lt' (by omega), UInt32.toNat_ofNat_of_lt' (by omega)⟩

/-- **The Gregorian calendar**, for every day whose year fits into 31 bits. -/
theorem daysToYmd_gregorian (days : UInt64)
    (hyear : (next^[days.toNat] .epoch).year < 2 ^ 31) :
    ∃ date : Date, (daysToYmd days).1.toNat = date.year ∧ (daysToYmd days).2.1.toNat = date.month
      ∧ (daysToYmd days).2.2.toNat = date.day ∧ date = next^[days.toNat] .epoch
      ∧ date.dayNumber = epoch.dayNumber + days.toNat := by
  have hsize : UInt32.size = 4294967296 := rfl
  obtain ⟨hmonth, hday⟩ := toNat_month_day (next^[days.toNat] .epoch)
  refine ⟨next^[days.toNat] .epoch, ?_, ?_, ?_, rfl, dayNumber_iterate_next ..⟩
  all_goals rw [daysToYmd_eq (toNat_lt_of_year_lt hyear)]
  · exact UInt32.toNat_ofNat_of_lt' (by omega)
  · exact hmonth
  · exact hday

theorem daysToYmd_leapDay : daysToYmd 11016 = (2000, 2, 29)
    ∧ ∃ date : Date, (daysToYmd 11016).1.toNat = date.year
      ∧ (daysToYmd 11016).2.1.toNat = date.month ∧ (daysToYmd 11016).2.2.toNat = date.day
      ∧ date = next^[11016] .epoch ∧ date.dayNumber = epoch.dayNumber + 11016 := by
  have hdate : (⟨2000, 2, 29, by decide, by decide, by decide, by decide⟩ : Date)
      = next^[(11016 : UInt64).toNat] .epoch := eq_iterate_next_iff.mpr (by decide)
  refine ⟨by decide +kernel, daysToYmd_gregorian 11016 ?_⟩
  rw [← hdate]
  decide

/-! ### Beside `next_fire_after` -/

theorem epochSecsToComponents_toNat (secs : UInt64) :
    (epochSecsToComponents secs).second.toNat = secs.toNat % 60
      ∧ (epochSecsToComponents secs).minute.toNat = secs.toNat % 3600 / 60
      ∧ (epochSecsToComponents secs).hour.toNat = secs.toNat % 86400 / 3600
      ∧ (epochSecsToComponents secs).day.toNat = (next^[secs.toNat / 86400] .epoch).day
      ∧ (epochSecsToComponents secs).month.toNat = (next^[secs.toNat / 86400] .epoch).month
      ∧ (epochSecsToComponents secs).dow.toNat = (secs.toNat / 86400 + 4) % 7 := by
  have hbound := secs.toNat_lt
  have hdays : (secs / 86400).toNat = secs.toNat / 86400 := UInt64.toNat_div ..
  have hymd := @daysToYmd_eq (secs / 86400) (by omega)
  rw [hdays] at hymd
  obtain ⟨hmonth, hday⟩ := toNat_month_day (next^[secs.toNat / 86400] .epoch)
  -- the casts to `u32` lose nothing
  have hcast : ∀ {x : UInt64} {n : Nat}, x.toNat = n → n < 86400 → x.toUInt32.toNat = n := by
    intro x n hx hn
    rw [UInt64.toNat_toUInt32, hx]
    omega
  have hdow : ((secs / 86400 + 4) % 7).toNat = (secs.toNat / 86400 + 4) % 7 := by
    rw [UInt64.toNat_mod, UInt64.toNat_add, hdays]
    show (secs.toNat / 86400 + 4) % 2 ^ 64 % 7 = _
    omega
  have hminute : (secs % 3600 / 60).toNat = secs.toNat % 3600 / 60 := by
    rw [UInt64.toNat_div, UInt64.toNat_mod]
    rfl
  have hhour : (secs % 86400 / 3600).toNat = secs.toNat % 86400 / 3600 := by
    rw [UInt64.toNat_div, UInt64.toNat_mod]
    rfl
  rw [epochSecsToComponents, hymd]
  exact ⟨hcast (UInt64.toNat_mod ..) (Nat.lt_of_lt_of_le (Nat.mod_lt _ (by decide)) (by decide)),
    hcast hminute (by omega), hcast hhour (by omega), hday, hmonth, hcast hdow (by omega)⟩

theorem toNat_seconds {m : UInt64} (hm : 60 * m.toNat < 2 ^ 64) :
    (60 * m).toNat = 60 * m.toNat := by
  rw [UInt64.toNat_mul]
  exact Nat.mod_eq_of_lt hm

theorem dow_cron_schedule {m : UInt64} (hm : 60 * m.toNat < 2 ^ 64) :
    (epochSecsToComponents (60 * m)).dow.toNat = ((cronComponents m).dayOfWeek.toNat + 4) % 7 := by
  obtain ⟨-, -, -, -, hweek⟩ := toNat_cronComponents m
  obtain ⟨-, -, -, -, -, hdow⟩ := epochSecsToComponents_toNat (60 * m)
  rw [hdow, hweek, toNat_seconds hm]
  omega

/-- **Two calendars.** `next_fire_after` counts days modulo 31 and months of 30 days. -/
theorem components_cron_schedule (m : UInt64) (hm : 60 * m.toNat < 2 ^ 64) :
    (cronComponents m).minute.toNat = (epochSecsToComponents (60 * m)).minute.toNat
      ∧ (cronComponents m).hour.toNat = (epochSecsToComponents (60 * m)).hour.toNat
      ∧ (epochSecsToComponents (60 * m)).day.toNat = (next^[m.toNat / 1440] .epoch).day
      ∧ (epochSecsToComponents (60 * m)).month.toNat = (next^[m.toNat / 1440] .epoch).month
      ∧ (cronComponents m).dayOfMonth.toNat = m.toNat / 1440 % 31 + 1
      ∧ (cronComponents m).month.toNat = m.toNat / 1440 / 30 % 12 + 1 := by
  obtain ⟨hminute, hhour, hdom, hmonth, -⟩ := toNat_cronComponents m
  obtain ⟨-, hminute', hhour', hday', hmonth', -⟩ := epochSecsToComponents_toNat (60 * m)
  have hdays : 60 * m.toNat / 86400 = m.toNat / 1440 := by omega
  have hmonths : m.toNat / 43200 = m.toNat / 1440 / 30 := (Nat.div_div_eq_div_mul _ 1440 30).symm
  rw [toNat_seconds hm] at hminute' hhour' hday' hmonth'
  rw [hdays] at hday' hmonth'
  rw [hminute, hhour, hminute', hhour', hmonth, hmonths]
  exact ⟨by omega, by omega, hday', hmonth', hdom, rfl⟩

theorem components_first_of_march :
    60 * (85680 : UInt64).toNat < 2 ^ 64
      ∧ (cronComponents 85680).hour.toNat = (epochSecsToComponents (60 * 85680)).hour.toNat
      ∧ (epochSecsToComponents (60 * 85680)).month.toNat
        = (next^[(85680 : UInt64).toNat / 1440] .epoch).month :=
  ⟨by decide, (components_cron_schedule 85680 (by decide)).2.1,
    (components_cron_schedule 85680 (by decide)).2.2.2.1⟩

theorem components_differ :
    cronComponents 0 = ⟨0, 0, 1, 1, 0⟩ ∧ epochSecsToComponents 0 = ⟨0, 0, 0, 1, 1, 4⟩
      ∧ cronComponents 84960 = ⟨0, 0, 29, 2, 3⟩
      ∧ epochSecsToComponents (60 * 84960) = ⟨0, 0, 0, 1, 3, 0⟩ := by
  refine ⟨by decide, by decide +kernel, by decide, by decide +kernel⟩

end Velocity
