import Mathlib.Logic.Function.Iterate
import Mathlib.Order.Monotone.Basic
import Mathlib.Tactic.Common

namespace Velocity.Lib.Gregorian

/-!
# The Gregorian calendar

Dates, the day after a date, and the number of a day in closed form.
-/

def IsLeap (y : Nat) : Prop := y % 4 = 0 ∧ y % 100 ≠ 0 ∨ y % 400 = 0

instance (y : Nat) : Decidable (IsLeap y) := inferInstanceAs (Decidable (_ ∨ _))

def yearLength (y : Nat) : Nat := if IsLeap y then 366 else 365

def monthLength (y : Nat) : Nat → Nat
  | 2 => if IsLeap y then 29 else 28
  | 4 => 30
  | 6 => 30
  | 9 => 30
  | 11 => 30
  | _ => 31

variable (y : Nat)

theorem yearLength_bounds : 365 ≤ yearLength y ∧ yearLength y ≤ 366 := by
  rw [yearLength]
  split <;> exact ⟨by decide, by decide⟩

theorem monthLength_bounds (y m : Nat) : 1 ≤ monthLength y m ∧ monthLength y m ≤ 31 := by
  rw [monthLength.eq_def]
  split
  · split <;> decide
  all_goals decide

/-! ### Days before a year -/

def daysBeforeYear (y : Nat) : Nat := 365 * y + (y + 3) / 4 + (y + 399) / 400 - (y + 99) / 100

theorem div_succ_year {k : Nat} (hk : 0 < k) :
    (y + 1 + (k - 1)) / k = (y + (k - 1)) / k + if y % k = 0 then 1 else 0 := by
  rw [show y + 1 + (k - 1) = y + (k - 1) + 1 by omega, Nat.succ_div,
    show y + (k - 1) + 1 = y + k by omega]
  simp only [Nat.dvd_iff_mod_eq_zero, Nat.add_mod_right]

theorem daysBeforeYear_succ : daysBeforeYear (y + 1) = daysBeforeYear y + yearLength y := by
  have hle : (y + 99) / 100 ≤ 365 * y + (y + 3) / 4 := by omega
  rw [daysBeforeYear, daysBeforeYear, yearLength, div_succ_year y (k := 4) (by decide),
    div_succ_year y (k := 100) (by decide), div_succ_year y (k := 400) (by decide)]
  -- the counts of multiples stand for themselves from here on
  revert hle
  generalize (y + (4 - 1)) / 4 = fours
  generalize (y + (100 - 1)) / 100 = centuries
  generalize (y + (400 - 1)) / 400 = fourths
  intro hle
  by_cases hfour : y % 4 = 0
  · by_cases hcentury : y % 100 = 0
    · by_cases hfourth : y % 400 = 0
      · rw [if_pos hfour, if_pos hcentury, if_pos hfourth, if_pos (.inr hfourth)]
        omega
      · rw [if_pos hfour, if_pos hcentury, if_neg hfourth,
          if_neg (by rintro (⟨-, h⟩ | h); exacts [h hcentury, hfourth h])]
        omega
    · rw [if_pos hfour, if_neg hcentury, if_neg (by omega), if_pos (.inl ⟨hfour, hcentury⟩)]
      omega
  · rw [if_neg hfour, if_neg (by omega), if_neg (by omega),
      if_neg (by rintro (⟨h, -⟩ | h) <;> omega)]
    omega

theorem daysBeforeYear_mono : Monotone daysBeforeYear := by
  apply monotone_nat_of_le_succ
  intro y
  rw [daysBeforeYear_succ]
  exact Nat.le_add_right ..

def daysBeforeMonth (y : Nat) : Nat → Nat
  | 0 => 0
  | 1 => 0
  | m + 2 => daysBeforeMonth y (m + 1) + monthLength y (m + 1)

theorem daysBeforeMonth_succ {m : Nat} (hm : 1 ≤ m) :
    daysBeforeMonth y (m + 1) = daysBeforeMonth y m + monthLength y m := by
  cases m with
  | zero => exact absurd hm (by decide)
  | succ m => rfl

theorem daysBeforeMonth_mono : Monotone (daysBeforeMonth y) := by
  apply monotone_nat_of_le_succ
  intro m
  cases m with
  | zero => exact Nat.le_refl 0
  | succ m => exact Nat.le_add_right ..

theorem daysBeforeMonth_thirteen : daysBeforeMonth y 13 = yearLength y := by
  simp only [daysBeforeMonth, monthLength, yearLength]
  split <;> rfl

/-! ### Dates -/

structure Date where
  year : Nat
  month : Nat
  day : Nat
  month_pos : 1 ≤ month
  month_le : month ≤ 12
  day_pos : 1 ≤ day
  day_le : day ≤ monthLength year month
  deriving DecidableEq

namespace Date

@[ext] theorem ext {a b : Date} (hyear : a.year = b.year) (hmonth : a.month = b.month)
    (hday : a.day = b.day) : a = b := by
  cases a
  cases b
  cases hyear
  cases hmonth
  cases hday
  rfl

variable (a : Date)

def next : Date :=
  if hday : a.day < monthLength a.year a.month then
    { a with day := a.day + 1, day_pos := Nat.succ_pos _, day_le := hday }
  else if hmonth : a.month < 12 then
    ⟨a.year, a.month + 1, 1, Nat.succ_pos _, hmonth, Nat.le_refl 1, (monthLength_bounds ..).1⟩
  else ⟨a.year + 1, 1, 1, Nat.le_refl 1, by decide, Nat.le_refl 1, (monthLength_bounds ..).1⟩

def dayNumber : Nat :=
  daysBeforeYear a.year + daysBeforeMonth a.year a.month + (a.day - 1)

theorem dayNumber_next : a.next.dayNumber = a.dayNumber + 1 := by
  have hday := a.day_pos
  have hle := a.day_le
  rw [next]
  split
  · simp only [dayNumber]
    omega
  · next hlast =>
    split
    · simp only [dayNumber, daysBeforeMonth_succ a.year a.month_pos]
      omega
    · next hmonth =>
      -- the last of December
      have hdecember : a.month = 12 := Nat.le_antisymm a.month_le (Nat.le_of_not_lt hmonth)
      have hyear : daysBeforeMonth a.year 12 + monthLength a.year 12 = yearLength a.year :=
        daysBeforeMonth_thirteen a.year
      show daysBeforeYear (a.year + 1) + 0 + (1 - 1) = a.dayNumber + 1
      rw [hdecember] at hle hlast
      rw [daysBeforeYear_succ, dayNumber, hdecember]
      omega

theorem dayNumber_iterate_next (n : Nat) : (next^[n] a).dayNumber = a.dayNumber + n := by
  induction n with
  | zero => rfl
  | succ n ih => rw [Function.iterate_succ_apply', dayNumber_next, ih, Nat.add_assoc]

theorem dayNumber_lt : a.dayNumber < daysBeforeYear (a.year + 1) := by
  have hmonth := daysBeforeMonth_mono a.year (Nat.succ_le_succ a.month_le)
  rw [daysBeforeMonth_succ a.year a.month_pos, daysBeforeMonth_thirteen] at hmonth
  have hday := a.day_pos
  have hle := a.day_le
  rw [dayNumber, daysBeforeYear_succ]
  omega

theorem year_le_of_dayNumber_le {a b : Date} (h : a.dayNumber ≤ b.dayNumber) : a.year ≤ b.year := by
  refine Nat.le_of_not_lt (fun hlt => ?_)
  have hmono := daysBeforeYear_mono (Nat.succ_le_of_lt hlt)
  have hb := b.dayNumber_lt
  have ha : daysBeforeYear a.year ≤ a.dayNumber := by
    rw [dayNumber]
    omega
  rw [Nat.succ_eq_add_one] at hmono
  omega

theorem month_le_of_dayNumber_le {a b : Date} (hyear : a.year = b.year)
    (h : a.dayNumber ≤ b.dayNumber) : a.month ≤ b.month := by
  refine Nat.le_of_not_lt (fun hlt => ?_)
  have hmono := daysBeforeMonth_mono b.year (Nat.succ_le_of_lt hlt)
  rw [Nat.succ_eq_add_one, daysBeforeMonth_succ b.year b.month_pos] at hmono
  have hday := b.day_pos
  have hle := b.day_le
  rw [dayNumber, dayNumber, hyear] at h
  omega

theorem dayNumber_injective : Function.Injective dayNumber := by
  intro a b heq
  have hyear : a.year = b.year := Nat.le_antisymm (year_le_of_dayNumber_le (Nat.le_of_eq heq))
    (year_le_of_dayNumber_le (Nat.le_of_eq heq.symm))
  have hmonth : a.month = b.month :=
    Nat.le_antisymm (month_le_of_dayNumber_le hyear (Nat.le_of_eq heq))
      (month_le_of_dayNumber_le hyear.symm (Nat.le_of_eq heq.symm))
  have ha := a.day_pos
  have hb := b.day_pos
  rw [dayNumber, dayNumber, hyear, hmonth] at heq
  exact ext hyear hmonth (by omega)

/-- **Days between dates.** Going on day by day and counting agree. -/
theorem eq_iterate_next_iff {a b : Date} {n : Nat} :
    b = next^[n] a ↔ b.dayNumber = a.dayNumber + n := by
  rw [← dayNumber_iterate_next]
  exact dayNumber_injective.eq_iff.symm

def epoch : Date := ⟨1970, 1, 1, by decide, by decide, by decide, by decide⟩

end Date

end Velocity.Lib.Gregorian
