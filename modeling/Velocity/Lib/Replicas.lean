import Mathlib.Algebra.BigOperators.Group.Finset.Piecewise
import Mathlib.Data.Finset.Lattice.Fold
import Mathlib.Data.Fintype.Basic
import Mathlib.Order.Lattice.Nat
import Velocity.Lib.Run

namespace Velocity.Lib

open Function Finset

/-!
# Replicated data

A history is a list of local updates and merges, in any order.

* `Replicated.run`: such a history.
* `CountedByMax`: the largest count of a replica is the number of updates.
-/

structure Replicated (σ ω : Type*) where
  apply : σ → ω → σ
  merge : σ → σ → σ

inductive ReplicaOp (ι ω : Type*) where
  | update (i : ι) (op : ω)
  | merge (target source : ι)

namespace Replicated

variable {ι σ ω : Type*} [DecidableEq ι] (d : Replicated σ ω)

def step (c : ι → σ) (op : ReplicaOp ι ω) : ι → σ :=
  match op with
  | .update i op => update c i (d.apply (c i) op)
  | .merge target source => update c target (d.merge (c target) (c source))

def run (c : ι → σ) (ops : List (ReplicaOp ι ω)) : ι → σ := ops.foldl d.step c

variable {d} {P : ι → σ → Prop}

theorem forall_step {c : ι → σ} {op : ReplicaOp ι ω} (hc : ∀ i, P i (c i))
    (hupdate : ∀ i o, op = .update i o → P i (d.apply (c i) o))
    (hmerge : ∀ i j, op = .merge i j → P i (d.merge (c i) (c j))) : ∀ i, P i (d.step c op i) := by
  intro k
  cases op with
  | update i o =>
    rw [step, update_apply]
    split
    · next hk => exact hk ▸ hupdate i o rfl
    · exact hc k
  | merge i j =>
    rw [step, update_apply]
    split
    · next hk => exact hk ▸ hmerge i j rfl
    · exact hc k

/-- **Every history** keeps what updates and merges keep. -/
theorem forall_run (hupdate : ∀ i s o, P i s → P i (d.apply s o))
    (hmerge : ∀ i j s t, P i s → P j t → P i (d.merge s t)) {c : ι → σ} (hc : ∀ i, P i (c i))
    (ops : List (ReplicaOp ι ω)) : ∀ i, P i (d.run c ops i) := by
  have hstep : ∀ (c : ι → σ) op, (∀ i, P i (c i)) → True → ∀ i, P i (d.step c op i) :=
    fun c op h _ => forall_step h (fun i o _ => hupdate i (c i) o (h i))
      (fun i j _ => hmerge i j (c i) (c j) (h i) (h j))
  exact foldl_invariant (I := fun c => ∀ i, P i (c i)) hstep ops c hc
    (stepsMeet_of_mem (fun _ _ _ => trivial))

end Replicated

/-! ### Largest counts -/

section Counting

variable {ι σ : Type*} [Fintype ι] [DecidableEq ι]

/-- The largest count is all that was performed. -/
def CountedByMax (count performed : σ → Nat) (c : ι → σ) : Prop :=
  univ.sup (count ∘ c) = ∑ i, performed (c i)

variable {count performed : σ → Nat} {c : ι → σ} {i : ι} {s : σ}

omit [DecidableEq ι] in
theorem count_le_sup (count : σ → Nat) (c : ι → σ) (i : ι) :
    count (c i) ≤ univ.sup (count ∘ c) :=
  le_sup (f := count ∘ c) (mem_univ i)

theorem sup_count_update (h : count (c i) ≤ count s) :
    Finset.univ.sup (count ∘ Function.update c i s)
      = max (Finset.univ.sup (count ∘ c)) (count s) := by
  refine Nat.le_antisymm (Finset.sup_le (fun j _ => ?_)) (Nat.max_le.mpr ⟨?_, ?_⟩)
  · rw [Function.comp_apply, Function.update_apply]
    split
    · exact Nat.le_max_right _ _
    · exact Nat.le_trans (count_le_sup count c j) (Nat.le_max_left _ _)
  · refine Finset.sup_le (fun j _ => Nat.le_trans ?_ (count_le_sup count _ j))
    rw [Function.update_apply]
    split
    · next hj => exact hj ▸ h
    · exact Nat.le_refl _
  · have hself := count_le_sup count (Function.update c i s) i
    rwa [Function.update_self] at hself

theorem sum_performed_update {n : Nat} (h : performed s = performed (c i) + n) :
    ∑ j, performed (update c i s j) = (∑ j, performed (c j)) + n := by
  have hcomp : (fun j => performed (update c i s j))
      = update (performed ∘ c) i (performed s) := comp_update performed c i s
  rw [hcomp, sum_update_of_mem (mem_univ i), h,
    ← sum_sdiff (singleton_subset_iff.mpr (mem_univ i)), sum_singleton]
  simp only [comp_apply]
  omega

theorem CountedByMax.sup_update_le (h : CountedByMax count performed c) {n : Nat}
    (hcount : count s = count (c i) + n) (hperformed : performed s = performed (c i) + n) :
    univ.sup (count ∘ update c i s)
      ≤ ∑ j, performed (update c i s j) := by
  unfold CountedByMax at h
  have hi := count_le_sup count c i
  rw [sup_count_update (by omega), sum_performed_update hperformed]
  omega

/-- **Counting on** is exact iff nothing is counted or no replica has counted more. -/
theorem CountedByMax.update_iff (h : CountedByMax count performed c) {n : Nat}
    (hcount : count s = count (c i) + n) (hperformed : performed s = performed (c i) + n) :
    CountedByMax count performed (Function.update c i s)
      ↔ n = 0 ∨ ∀ j, count (c j) ≤ count (c i) := by
  unfold CountedByMax at h ⊢
  rw [sup_count_update (by omega), sum_performed_update hperformed, h, hcount]
  have hle := count_le_sup count c
  rw [h] at hle
  constructor
  · intro hmax
    refine (Nat.eq_zero_or_pos n).imp_right (fun hpos j => ?_)
    have hj := hle j
    omega
  · rintro (rfl | hall)
    · have hi := hle i
      omega
    · have htop : Finset.univ.sup (count ∘ c) ≤ count (c i) := Finset.sup_le (fun j _ => hall j)
      have hi := hle i
      omega

theorem CountedByMax.merge (h : CountedByMax count performed c) {j : ι}
    (hcount : count s = max (count (c i)) (count (c j)))
    (hperformed : performed s = performed (c i)) :
    CountedByMax count performed (update c i s) := by
  unfold CountedByMax at h ⊢
  rw [sup_count_update (by omega), sum_performed_update (n := 0) hperformed, ← h, hcount]
  have hi := count_le_sup count c i
  have hj := count_le_sup count c j
  omega

theorem CountedByMax.same (h : CountedByMax count performed c) (hcount : count s = count (c i))
    (hperformed : performed s = performed (c i)) :
    CountedByMax count performed (update c i s) :=
  (h.update_iff (n := 0) hcount hperformed).mpr (.inl rfl)

end Counting

end Velocity.Lib
