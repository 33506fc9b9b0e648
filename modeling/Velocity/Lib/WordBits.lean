import Mathlib.Algebra.Group.Int.Defs
import Mathlib.Algebra.Group.Nat.Defs
import Mathlib.Tactic.Common

namespace Velocity.Lib

/-!
# 64-bit words

The mask `1 << b` bit by bit, saturating sums, and words read as signed numbers.
-/

theorem getLsbD_one_shift {b : Nat} (hb : b < 64) (i : Nat) :
    (1 <<< UInt64.ofNat b : UInt64).toBitVec.getLsbD i = decide (i = b) := by
  have hmod : b % 18446744073709551616 = b := Nat.mod_eq_of_lt (by omega)
  by_cases hi : i < 64
  · by_cases hib : i = b
    · subst hib; simp [hmod, Nat.mod_eq_of_lt hb, hi]
    · by_cases hlt : i < b
      · simp [hmod, Nat.mod_eq_of_lt hb, hi, hib, hlt]
      · have hsub : i - b ≠ 0 := by omega
        simp [hmod, Nat.mod_eq_of_lt hb, hi, hib, hsub]
  · have hib : i ≠ b := by omega
    rw [BitVec.getLsbD_of_ge _ _ (by omega), decide_eq_false hib]

theorem one_shift_mod (s : UInt64) : (1 <<< s : UInt64) = 1 <<< UInt64.ofNat (s.toNat % 64) := by
  apply UInt64.toBitVec_inj.mp
  simp

theorem getLsbD_shiftLeft {s : UInt64} (hs : s.toNat < 64) (w : UInt64) (i : Nat) :
    (w <<< s).toBitVec.getLsbD i
      = (decide (i < 64) && !decide (i < s.toNat) && w.toBitVec.getLsbD (i - s.toNat)) := by
  simp [Nat.mod_eq_of_lt hs]

theorem word_ext {v w : UInt64}
    (h : ∀ i, i < 64 → v.toBitVec.getLsbD i = w.toBitVec.getLsbD i) : v = w :=
  UInt64.toBitVec_inj.mp (BitVec.eq_of_getLsbD_eq h)

/-- `w & (1 << b)` tests bit `b` of `w`. -/
theorem and_one_shift_ne_zero {b : Nat} (hb : b < 64) (w : UInt64) :
    ((w &&& (1 <<< UInt64.ofNat b)) != 0) = w.toBitVec.getLsbD b := by
  rw [Bool.eq_iff_iff, bne_iff_ne]
  constructor
  · intro hne
    by_contra hw
    refine hne (word_ext (fun i _ => ?_))
    rw [UInt64.toBitVec_and, BitVec.getLsbD_and, getLsbD_one_shift hb]
    by_cases hib : i = b
    · subst hib; simpa using hw
    · simp [hib]
  · intro hw hzero
    have hbit : (w &&& (1 <<< UInt64.ofNat b)).toBitVec.getLsbD b = true := by
      rw [UInt64.toBitVec_and, BitVec.getLsbD_and, getLsbD_one_shift hb, hw]; simp
    rw [hzero] at hbit
    simp at hbit

theorem getLsbD_or_one_shift {b : Nat} (hb : b < 64) (w : UInt64) (i : Nat) :
    (w ||| (1 <<< UInt64.ofNat b)).toBitVec.getLsbD i
      = (w.toBitVec.getLsbD i || decide (i = b)) := by
  rw [UInt64.toBitVec_or, BitVec.getLsbD_or, getLsbD_one_shift hb]

theorem getLsbD_and_not_one_shift {b : Nat} (hb : b < 64) (w : UInt64) {i : Nat} (hi : i < 64) :
    (w &&& ~~~(1 <<< UInt64.ofNat b)).toBitVec.getLsbD i
      = (w.toBitVec.getLsbD i && !decide (i = b)) := by
  rw [UInt64.toBitVec_and, UInt64.toBitVec_not, BitVec.getLsbD_and, BitVec.getLsbD_not,
    getLsbD_one_shift hb, decide_eq_true hi, Bool.true_and]

/-! ### Sums and signs -/

theorem toNat_add_one_of_lt {n : UInt64} (h : n.toNat + 1 < 2 ^ 64) :
    (n + 1).toNat = n.toNat + 1 := by
  rw [UInt64.toNat_add]
  exact Nat.mod_eq_of_lt h

theorem nodup_map_counter {n : Nat} (h : n ≤ 2 ^ 64) :
    ((List.range n).map fun i => UInt64.ofNat (i + 1)).Nodup := by
  rw [List.Nodup, List.pairwise_map]
  refine List.pairwise_lt_range.imp_of_mem ?_
  intro i j _ hj hlt heq
  have hj' : j < n := List.mem_range.mp hj
  have hnat := congrArg UInt64.toNat heq
  simp only [UInt64.toNat_ofNat'] at hnat
  omega

def saturatingSub (a b : UInt64) : UInt64 := if b ≤ a then a - b else 0

def saturatingAdd (a b : UInt64) : UInt64 := UInt64.ofNat (min (a.toNat + b.toNat) (2 ^ 64 - 1))

theorem toNat_saturatingAdd (a b : UInt64) :
    (saturatingAdd a b).toNat = min (a.toNat + b.toNat) (2 ^ 64 - 1) := by
  rw [saturatingAdd, UInt64.toNat_ofNat', Nat.mod_eq_of_lt (by omega)]

theorem toNat_saturatingAdd_of_lt {a b : UInt64} (h : a.toNat + b.toNat < 2 ^ 64) :
    (saturatingAdd a b).toNat = a.toNat + b.toNat := by
  rw [toNat_saturatingAdd]
  omega

theorem toInt_toInt64 {a : UInt64} (h : a.toNat < 2 ^ 63) : a.toInt64.toInt = a.toNat := by
  show a.toBitVec.toInt = a.toBitVec.toNat
  have hlt : a.toBitVec.toNat < 2 ^ 63 := h
  rw [BitVec.toInt_eq_toNat_of_lt (by omega)]

theorem toInt_sub_toInt64 {a b : UInt64} (ha : a.toNat < 2 ^ 63) (hb : b.toNat < 2 ^ 63) :
    (a.toInt64 - b.toInt64).toInt = (a.toNat : Int) - b.toNat := by
  rw [Int64.toInt_sub, toInt_toInt64 ha, toInt_toInt64 hb]
  exact Int.bmod_eq_of_le (by omega) (by omega)

end Velocity.Lib
