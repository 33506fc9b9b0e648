import Velocity.Lib.WordBits

namespace Velocity

open Lib

/-!
# The step bitmask

`Bitmask256` of the core crate: one completion flag per step index below 256.
-/

structure Bitmask256 where
  bits : Vector UInt64 4
  deriving DecidableEq, Repr

namespace Bitmask256

def new : Bitmask256 := ⟨Vector.replicate 4 0⟩

def setStep (m : Bitmask256) (stepIndex : Nat) : Bool × Bitmask256 :=
  if _h : stepIndex < 256 then
    let word := stepIndex / 64
    let bit := stepIndex % 64
    (true, ⟨m.bits.set word (m.bits[word] ||| (1 <<< UInt64.ofNat bit))⟩)
  else (false, m)

def isStepSet (m : Bitmask256) (stepIndex : Nat) : Bool :=
  if _h : stepIndex < 256 then
    let word := stepIndex / 64
    let bit := stepIndex % 64
    (m.bits[word] &&& (1 <<< UInt64.ofNat bit)) != 0
  else false

def clearStep (m : Bitmask256) (stepIndex : Nat) : Bool × Bitmask256 :=
  if _h : stepIndex < 256 then
    let word := stepIndex / 64
    let bit := stepIndex % 64
    (true, ⟨m.bits.set word (m.bits[word] &&& ~~~(1 <<< UInt64.ofNat bit))⟩)
  else (false, m)

def clearSteps (m : Bitmask256) (lo hi : Nat) : Bitmask256 :=
  (List.range' lo (hi - lo)).foldl (fun m step => (m.clearStep step).2) m

/-! ### The flags, one by one -/

variable (m : Bitmask256)

theorem isStepSet_of_lt {s : Nat} (hs : s < 256) :
    m.isStepSet s = (m.bits[s / 64]).toBitVec.getLsbD (s % 64) := by
  rw [isStepSet, dif_pos hs]
  exact and_one_shift_ne_zero (Nat.mod_lt s (by decide)) _

theorem isStepSet_of_ge {s : Nat} (hs : 256 ≤ s) : m.isStepSet s = false := by
  rw [isStepSet, dif_neg (by omega)]

@[simp] theorem isStepSet_new (s : Nat) : new.isStepSet s = false := by
  by_cases hs : s < 256
  · rw [isStepSet_of_lt _ hs]; simp [new]
  · exact isStepSet_of_ge _ (by omega)

@[simp] theorem setStep_fst (s : Nat) : (m.setStep s).1 = decide (s < 256) := by
  by_cases hs : s < 256 <;> simp [setStep, hs]

private theorem word_bit_inj {s t : Nat} (hw : s / 64 = t / 64) (hb : s % 64 = t % 64) : s = t := by
  omega

theorem isStepSet_setStep (s t : Nat) :
    (m.setStep s).2.isStepSet t = (m.isStepSet t || (decide (t = s) && decide (s < 256))) := by
  by_cases hs : s < 256
  · by_cases ht : t < 256
    · rw [isStepSet_of_lt _ ht, isStepSet_of_lt _ ht, setStep, dif_pos hs]
      simp only [Vector.getElem_set, hs, decide_true, Bool.and_true]
      by_cases hw : s / 64 = t / 64
      · rw [if_pos hw, getLsbD_or_one_shift (Nat.mod_lt s (by decide))]
        have hiff : t % 64 = s % 64 ↔ t = s := ⟨fun hb => word_bit_inj hw.symm hb, fun h => h ▸ rfl⟩
        simp only [hw, decide_eq_decide.mpr hiff]
      · have hne : t ≠ s := fun h => hw (h ▸ rfl)
        rw [if_neg hw, decide_eq_false hne, Bool.or_false]
    · have hne : t ≠ s := by omega
      rw [isStepSet_of_ge _ (by omega), isStepSet_of_ge _ (by omega), decide_eq_false hne]
      rfl
  · rw [setStep, dif_neg hs, decide_eq_false hs, Bool.and_false, Bool.or_false]

theorem isStepSet_clearStep (s t : Nat) :
    (m.clearStep s).2.isStepSet t = (m.isStepSet t && !decide (t = s)) := by
  by_cases ht : t < 256
  · by_cases hs : s < 256
    · rw [isStepSet_of_lt _ ht, isStepSet_of_lt _ ht, clearStep, dif_pos hs]
      simp only [Vector.getElem_set]
      by_cases hw : s / 64 = t / 64
      · rw [if_pos hw,
          getLsbD_and_not_one_shift (Nat.mod_lt s (by decide)) _ (Nat.mod_lt t (by decide))]
        have hiff : t % 64 = s % 64 ↔ t = s := ⟨fun hb => word_bit_inj hw.symm hb, fun h => h ▸ rfl⟩
        simp only [hw, decide_eq_decide.mpr hiff]
      · have hne : t ≠ s := fun h => hw (h ▸ rfl)
        rw [if_neg hw, decide_eq_false hne, Bool.not_false, Bool.and_true]
    · have hne : t ≠ s := by omega
      rw [clearStep, dif_neg hs, decide_eq_false hne, Bool.not_false, Bool.and_true]
  · rw [isStepSet_of_ge _ (by omega), isStepSet_of_ge _ (by omega), Bool.false_and]

theorem isStepSet_clearSteps (lo hi t : Nat) :
    (m.clearSteps lo hi).isStepSet t = (m.isStepSet t && !decide (lo ≤ t ∧ t < hi)) := by
  unfold clearSteps
  -- the lower end moves up
  generalize hn : hi - lo = n
  induction n generalizing m lo with
  | zero =>
    have hout : ¬ (lo ≤ t ∧ t < hi) := by omega
    rw [decide_eq_false hout, Bool.not_false, Bool.and_true]
    rfl
  | succ n ih =>
    rw [List.range'_succ, List.foldl_cons, ih _ (lo + 1) (by omega), isStepSet_clearStep,
      Bool.and_assoc]
    congr 1
    by_cases ht : t = lo
    · have hin : lo ≤ t ∧ t < hi := by omega
      rw [decide_eq_true ht, decide_eq_true hin]
      rfl
    · have hiff : (lo + 1 ≤ t ∧ t < hi) ↔ (lo ≤ t ∧ t < hi) := by omega
      rw [decide_eq_false ht, decide_eq_decide.mpr hiff]
      rfl

theorem ext_steps {m m' : Bitmask256} (h : ∀ s, s < 256 → m.isStepSet s = m'.isStepSet s) :
    m = m' := by
  obtain ⟨bits⟩ := m
  obtain ⟨bits'⟩ := m'
  congr 1
  apply Vector.ext
  intro w hw
  refine word_ext (fun b hb => ?_)
  have hs : 64 * w + b < 256 := by omega
  have hword : (64 * w + b) / 64 = w := by omega
  have hbit : (64 * w + b) % 64 = b := by omega
  have hflag := h (64 * w + b) hs
  rw [isStepSet_of_lt _ hs, isStepSet_of_lt _ hs] at hflag
  simpa only [hword, hbit] using hflag

theorem clearSteps_of_not_set {m : Bitmask256} {lo hi : Nat}
    (h : ∀ s, lo ≤ s → s < hi → m.isStepSet s = false) : m.clearSteps lo hi = m := by
  refine ext_steps (fun t _ => ?_)
  rw [isStepSet_clearSteps]
  by_cases ht : lo ≤ t ∧ t < hi
  · rw [h t ht.1 ht.2, Bool.false_and]
  · rw [decide_eq_false ht, Bool.not_false, Bool.and_true]

theorem setStep_of_known {m : Bitmask256} {s : Nat} (h : 256 ≤ s ∨ m.isStepSet s = true) :
    (m.setStep s).2 = m := by
  refine ext_steps (fun t _ => ?_)
  rw [isStepSet_setStep]
  rcases h with hbeyond | hset
  · rw [decide_eq_false (Nat.not_lt.mpr hbeyond), Bool.and_false, Bool.or_false]
  · by_cases ht : t = s
    · rw [ht, hset, Bool.true_or]
    · rw [decide_eq_false ht, Bool.false_and, Bool.or_false]

end Bitmask256

end Velocity
