import Velocity.Lib.BoundedSearch
import Velocity.Services.CronParse

namespace Velocity

open Lib

/-!
# The next minute of a cron expression

`next_fire_after` tries `4 * 366` days. Dates and weekdays repeat every 78120 days.
-/

/-! ### Components -/

theorem toNat_div_mod (c a b : UInt64) : (c / a % b).toNat = c.toNat / a.toNat % b.toNat := by
  rw [UInt64.toNat_mod, UInt64.toNat_div]

theorem toNat_cronComponents (c : UInt64) :
    (cronComponents c).minute.toNat = c.toNat % 60
      ∧ (cronComponents c).hour.toNat = c.toNat / 60 % 24
      ∧ (cronComponents c).dayOfMonth.toNat = c.toNat / 1440 % 31 + 1
      ∧ (cronComponents c).month.toNat = c.toNat / 43200 % 12 + 1
      ∧ (cronComponents c).dayOfWeek.toNat = c.toNat / 1440 % 7 := by
  have hbyte : ∀ x : UInt64, x.toUInt8 = UInt8.ofNat x.toNat := fun x => by
    rw [← UInt8.toNat_inj, UInt64.toNat_toUInt8, UInt8.toNat_ofNat']
  -- what `u8` does with the remainders, which all fit
  have hminute : ∀ n < 60, (UInt8.ofNat n % 60).toNat = n := by decide
  have hhour : ∀ n < 24, (UInt8.ofNat n % 24).toNat = n := by decide
  have hday : ∀ n < 31, (max 1 (min 31 (UInt8.ofNat n + 1))).toNat = n + 1 := by decide
  have hmonth : ∀ n < 12, (UInt8.ofNat n + 1).toNat = n + 1 := by decide
  have hweek : ∀ n < 7, (UInt8.ofNat n).toNat = n := by decide
  refine ⟨?_, ?_, ?_, ?_, ?_⟩
  · have heq : (c % 60).toNat = c.toNat % 60 := UInt64.toNat_mod ..
    show ((c % 60).toUInt8 % 60).toNat = _
    rw [hbyte, heq, hminute _ (Nat.mod_lt _ (by decide))]
  · have heq : (c / 60 % 24).toNat = c.toNat / 60 % 24 := toNat_div_mod ..
    show ((c / 60 % 24).toUInt8 % 24).toNat = _
    rw [hbyte, heq, hhour _ (Nat.mod_lt _ (by decide))]
  · have heq : (c / (60 * 24) % 31).toNat = c.toNat / 1440 % 31 := toNat_div_mod ..
    show (max 1 (min 31 ((c / (60 * 24) % 31).toUInt8 + 1))).toNat = _
    rw [hbyte, heq, hday _ (Nat.mod_lt _ (by decide))]
  · have heq : (c / (60 * 24 * 30) % 12).toNat = c.toNat / 43200 % 12 := toNat_div_mod ..
    show ((c / (60 * 24 * 30) % 12).toUInt8 + 1).toNat = _
    rw [hbyte, heq, hmonth _ (Nat.mod_lt _ (by decide))]
  · have heq : (c / (60 * 24) % 7).toNat = c.toNat / 1440 % 7 := toNat_div_mod ..
    show (c / (60 * 24) % 7).toUInt8.toNat = _
    rw [hbyte, heq, hweek _ (Nat.mod_lt _ (by decide))]

namespace CronExpression

/-! ### The search -/

theorem searchFrom_eq (expr : CronExpression) (fallback : UInt64) (n : Nat) (c : UInt64) :
    expr.searchFrom fallback n c = (firstFrom expr.allows n c).getD fallback := by
  induction n generalizing c with
  | zero => rfl
  | succ n ih =>
    rw [searchFrom, firstFrom]
    split
    · rfl
    · exact ih (c + 1)

/-- **The next allowed minute** is found iff there is one in `4 * 366` days. -/
theorem nextFireAfter_isNext_iff (expr : CronExpression) (afterMinutes : UInt64) :
    IsNext expr.allows afterMinutes (expr.nextFireAfter afterMinutes)
      ↔ ∃ c, afterMinutes < c ∧ c.toNat ≤ afterMinutes.toNat + 4 * 366 * 24 * 60
        ∧ expr.allows c = true := by
  rw [← isNext_firstFrom_iff (by decide), nextFireAfter, searchFrom_eq]
  cases hfound : firstFrom expr.allows (4 * 366 * 24 * 60) (afterMinutes + 1) with
  | some r => simp
  | none =>
    -- the fallback is one of the minutes that were tried
    refine iff_of_false (fun hnext => ?_) (by simp)
    have hno := firstFrom_eq_none.mp hfound 59 (by decide)
    have heq : afterMinutes + 1 + UInt64.ofNat 59 = afterMinutes + 60 :=
      add_ofNat_succ afterMinutes 59
    rw [heq] at hno
    exact absurd (hnext.isMatch.symm.trans hno) (by decide)

theorem allows_newYear_iff (c : UInt64) :
    allows ⟨[0], [0], [1], [1], [0]⟩ c = true
      ↔ c.toNat % 1440 = 0 ∧ c.toNat / 1440 % 31 = 0 ∧ c.toNat / 1440 / 30 % 12 = 0
        ∧ c.toNat / 1440 % 7 = 0 := by
  obtain ⟨hminute, hhour, hday, hmonth, hweek⟩ := toNat_cronComponents c
  have hmem : ∀ a b : UInt8, [a].contains b = true ↔ b.toNat = a.toNat := by
    intro a b
    rw [List.contains_iff_mem, List.mem_singleton, UInt8.toNat_inj]
  rw [allows]
  simp only [Bool.and_eq_true, hmem, hminute, hhour, hday, hmonth, hweek]
  have h0 : (0 : UInt8).toNat = 0 := rfl
  have h1 : (1 : UInt8).toNat = 1 := rfl
  have hmidnight : c.toNat % 1440 = 0 ↔ c.toNat % 60 = 0 ∧ c.toNat / 60 % 24 = 0 := by omega
  have hmonths : c.toNat / 43200 = c.toNat / 1440 / 30 := (Nat.div_div_eq_div_mul _ 1440 30).symm
  rw [hmidnight, hmonths, h0, h1]
  simp only [Nat.add_eq_right, and_assoc]

theorem not_allows_newYear {c : UInt64} (hlt : 7812000 < c.toNat) (hgt : c.toNat < 22811040) :
    allows ⟨[0], [0], [1], [1], [0]⟩ c = false := by
  rw [← Bool.not_eq_true, allows_newYear_iff]
  rintro ⟨hmidnight, hday, hmonth, hweek⟩
  obtain ⟨k, hk⟩ : ∃ k, c.toNat / 1440 = 217 * k := ⟨c.toNat / 1440 / 217, by omega⟩
  have hmonths : ∀ k < 73, 25 < k → 217 * k / 30 % 12 ≠ 0 := by decide
  exact hmonths k (by omega) (by omega) (hk ▸ hmonth)

theorem nextFireAfter_not_isNext :
    parse "0 0 1 1 0" = ⟨.ok ⟨[0], [0], [1], [1], [0]⟩, false⟩
      ∧ nextFireAfter ⟨[0], [0], [1], [1], [0]⟩ 7812000 = 7812060
      ∧ allows ⟨[0], [0], [1], [1], [0]⟩ 7812060 = false
      ∧ IsNext (allows ⟨[0], [0], [1], [1], [0]⟩) 7812000 22811040
      ∧ ¬ IsNext (allows ⟨[0], [0], [1], [1], [0]⟩) 7812000
        (nextFireAfter ⟨[0], [0], [1], [1], [0]⟩ 7812000) := by
  have hstart : (7812000 : UInt64).toNat = 7812000 := rfl
  have hnone : firstFrom (allows ⟨[0], [0], [1], [1], [0]⟩) (4 * 366 * 24 * 60) (7812000 + 1)
      = none := by
    refine firstFrom_eq_none.mpr (fun i hi => ?_)
    have htried := @toNat_add_ofNat 7812000 i (by omega)
    exact not_allows_newYear (by omega) (by omega)
  have hanswer : nextFireAfter ⟨[0], [0], [1], [1], [0]⟩ 7812000 = 7812060 := by
    rw [nextFireAfter, searchFrom_eq, hnone]
    rfl
  have hnot : allows ⟨[0], [0], [1], [1], [0]⟩ 7812060 = false :=
    not_allows_newYear (by decide) (by decide)
  refine ⟨by decide +kernel, hanswer, hnot, ⟨by decide, by decide +kernel, ?_⟩, fun hnext => ?_⟩
  · intro c hlt hc
    refine UInt64.not_lt.mp (fun hbefore => ?_)
    rw [not_allows_newYear (UInt64.lt_iff_toNat_lt.mp hlt) (UInt64.lt_iff_toNat_lt.mp hbefore)] at hc
    cases hc
  · rw [hanswer] at hnext
    exact absurd (hnext.isMatch.symm.trans hnot) (by decide)

end CronExpression

end Velocity
