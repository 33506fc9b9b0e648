import Mathlib.Algebra.Group.Nat.Defs
import Mathlib.Tactic.Common

namespace Velocity.Lib

/-!
# Bounded search

A search of `n` machine words upwards from `start`; the addition wraps.
-/

def firstFrom (p : UInt64 → Bool) : Nat → UInt64 → Option UInt64
  | 0, _ => none
  | n + 1, c => if p c then some c else firstFrom p n (c + 1)

/-- The least match above `start`. -/
structure IsNext (p : UInt64 → Bool) (start r : UInt64) : Prop where
  above : start < r
  isMatch : p r = true
  least : ∀ c, start < c → p c = true → r ≤ c

variable {p : UInt64 → Bool} {n : Nat} {c r start : UInt64}

theorem IsNext.unique {r' : UInt64} (h : IsNext p start r) (h' : IsNext p start r') : r = r' :=
  UInt64.le_antisymm (h.least r' h'.above h'.isMatch) (h'.least r h.above h.isMatch)

theorem add_ofNat_zero (c : UInt64) : c + UInt64.ofNat 0 = c := UInt64.add_zero c

theorem add_ofNat_succ (c : UInt64) (i : Nat) :
    c + 1 + UInt64.ofNat i = c + UInt64.ofNat (i + 1) := by
  rw [UInt64.add_assoc, UInt64.ofNat_add, UInt64.add_comm 1]
  rfl

theorem firstFrom_eq_some (h : firstFrom p n c = some r) :
    ∃ i < n, r = c + UInt64.ofNat i ∧ p r = true ∧ ∀ j < i, p (c + UInt64.ofNat j) = false := by
  induction n generalizing c with
  | zero => cases h
  | succ n ih =>
    rw [firstFrom] at h
    split at h
    · next hp =>
      cases h
      exact ⟨0, Nat.succ_pos n, (UInt64.add_zero _).symm, hp,
        fun j hj => absurd hj (Nat.not_lt_zero j)⟩
    · next hp =>
      obtain ⟨i, hi, heq, hmatch, hbefore⟩ := ih h
      refine ⟨i + 1, Nat.succ_lt_succ hi, by rw [heq, add_ofNat_succ], hmatch, fun j hj => ?_⟩
      cases j with
      | zero =>
        rw [add_ofNat_zero]
        exact Bool.eq_false_iff.mpr hp
      | succ j =>
        rw [← add_ofNat_succ]
        exact hbefore j (Nat.lt_of_succ_lt_succ hj)

theorem firstFrom_eq_none : firstFrom p n c = none ↔ ∀ i < n, p (c + UInt64.ofNat i) = false := by
  induction n generalizing c with
  | zero => exact iff_of_true rfl (fun i hi => absurd hi (Nat.not_lt_zero i))
  | succ n ih =>
    rw [firstFrom, Nat.forall_lt_succ_left, add_ofNat_zero]
    split
    · next hp => exact iff_of_false (by simp) (fun h => by rw [hp] at h; cases h.1)
    · next hp =>
      rw [ih]
      simp only [add_ofNat_succ, Bool.eq_false_iff.mpr hp, true_and]

theorem toNat_add_ofNat {i : Nat} (h : start.toNat + 1 + i < 2 ^ 64) :
    (start + 1 + UInt64.ofNat i).toNat = start.toNat + 1 + i := by
  rw [UInt64.toNat_add, UInt64.toNat_add, UInt64.toNat_ofNat']
  have : (1 : UInt64).toNat = 1 := rfl
  omega

theorem exists_tried (hlt : start < c) : ∃ i, c = start + 1 + UInt64.ofNat i
    ∧ c.toNat = start.toNat + 1 + i := by
  have hlt := UInt64.lt_iff_toNat_lt.mp hlt
  have hc := c.toNat_lt
  refine ⟨c.toNat - start.toNat - 1, ?_, by omega⟩
  rw [← UInt64.toNat_inj, toNat_add_ofNat (by omega)]
  omega

/-- A word reached by wrapping around is not above `start`. -/
theorem isNext_of_firstFrom (hn : n < 2 ^ 64) (hfound : firstFrom p n (start + 1) = some r)
    (habove : start < r) : IsNext p start r ∧ r.toNat ≤ start.toNat + n := by
  obtain ⟨i, hi, heq, hmatch, hbefore⟩ := firstFrom_eq_some hfound
  have hlt := UInt64.lt_iff_toNat_lt.mp habove
  have hr : r.toNat = (start.toNat + 1 + i) % 2 ^ 64 := by
    rw [heq, UInt64.toNat_add, UInt64.toNat_add, UInt64.toNat_ofNat']
    have : (1 : UInt64).toNat = 1 := rfl
    omega
  refine ⟨⟨habove, hmatch, fun c hc hmatch' => ?_⟩, by omega⟩
  obtain ⟨j, hj, hjNat⟩ := exists_tried hc
  rw [UInt64.le_iff_toNat_le]
  refine Nat.le_of_not_lt (fun hcr => ?_)
  have hno := hbefore j (by omega)
  rw [← hj, hmatch'] at hno
  cases hno

/-- **Bounded search** finds the least match iff there is one among the `n` words. -/
theorem isNext_firstFrom_iff (hn : n < 2 ^ 64) :
    (∃ r, firstFrom p n (start + 1) = some r ∧ IsNext p start r)
      ↔ ∃ c, start < c ∧ c.toNat ≤ start.toNat + n ∧ p c = true := by
  constructor
  · rintro ⟨r, hfound, hnext⟩
    exact ⟨r, hnext.above, (isNext_of_firstFrom hn hfound hnext.above).2, hnext.isMatch⟩
  · rintro ⟨c, hlt, hle, hc⟩
    obtain ⟨k, hk, hkNat⟩ := exists_tried hlt
    have hcNat := c.toNat_lt
    cases hfound : firstFrom p n (start + 1) with
    | none =>
      have hno := firstFrom_eq_none.mp hfound k (by omega)
      rw [← hk, hc] at hno
      cases hno
    | some r =>
      obtain ⟨i, hi, heq, -, hbefore⟩ := firstFrom_eq_some hfound
      -- it ends at `c`, before it wraps around
      have hik : i ≤ k := by
        refine Nat.le_of_not_lt (fun hki => ?_)
        have hno := hbefore k hki
        rw [← hk, hc] at hno
        cases hno
      have hr : r.toNat = start.toNat + 1 + i := heq ▸ toNat_add_ofNat (by omega)
      exact ⟨r, rfl,
        (isNext_of_firstFrom hn hfound (UInt64.lt_iff_toNat_lt.mpr (by omega))).1⟩

theorem firstFrom_eq_some_iff (hn : start.toNat + n < 2 ^ 64) :
    firstFrom p n (start + 1) = some r ↔ IsNext p start r ∧ r.toNat ≤ start.toNat + n := by
  have hlt : n < 2 ^ 64 := by omega
  constructor
  · intro hfound
    obtain ⟨i, hi, heq, -, -⟩ := firstFrom_eq_some hfound
    have hr : r.toNat = start.toNat + 1 + i := heq ▸ toNat_add_ofNat (by omega)
    exact isNext_of_firstFrom hlt hfound (UInt64.lt_iff_toNat_lt.mpr (by omega))
  · rintro ⟨hnext, hle⟩
    obtain ⟨r', hfound, hnext'⟩ := (isNext_firstFrom_iff hlt).mpr
      ⟨r, hnext.above, hle, hnext.isMatch⟩
    rw [hfound, hnext.unique hnext']

theorem firstFrom_eq_none_iff (hn : start.toNat + n < 2 ^ 64) :
    firstFrom p n (start + 1) = none
      ↔ ∀ c, start < c → c.toNat ≤ start.toNat + n → p c = false := by
  rw [firstFrom_eq_none]
  constructor
  · intro h c hlt hle
    obtain ⟨i, hi, hiNat⟩ := exists_tried hlt
    exact hi ▸ h i (by omega)
  · intro h i hi
    have htried := @toNat_add_ofNat start i (by omega)
    exact h _ (UInt64.lt_iff_toNat_lt.mpr (by omega)) (by omega)

end Velocity.Lib
