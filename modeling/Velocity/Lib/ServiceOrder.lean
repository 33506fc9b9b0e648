import Mathlib.Data.List.MinMax
import Mathlib.Tactic.Common

namespace Velocity.Lib

open List

/-!
# The service order of a priority queue

Smallest rank first, and the first to arrive among equals.
-/

variable {α β : Type*} [DecidableEq α] [LinearOrder β] (f : α → β)

def bestFirst : Nat → List α → List α
  | 0, _ => []
  | n + 1, l =>
    match l.argmin f with
    | none => []
    | some best => best :: bestFirst n (l.erase best)

def serviceOrder (l : List α) : List α := bestFirst f l.length l

@[simp] theorem serviceOrder_nil : serviceOrder f ([] : List α) = [] := rfl

variable {f}

theorem serviceOrder_of_argmin {l : List α} {best : α} (h : l.argmin f = some best) :
    serviceOrder f l = best :: serviceOrder f (l.erase best) := by
  have hmem : best ∈ l := argmin_mem h
  have hlen : l.length = (l.erase best).length + 1 := by
    have hpos := length_pos_of_mem hmem
    rw [length_erase_of_mem hmem]
    omega
  rw [serviceOrder, hlen, bestFirst, h]
  rfl

variable (f) in
theorem service_induction {P : List α → Prop} (nil : P [])
    (best : ∀ l best, l.argmin f = some best → P (l.erase best) → P l) (l : List α) : P l := by
  induction hn : l.length generalizing l with
  | zero =>
    obtain rfl := length_eq_zero_iff.mp hn
    exact nil
  | succ n ih =>
    cases hbest : l.argmin f with
    | none =>
      rw [argmin_eq_none] at hbest
      simp [hbest] at hn
    | some b =>
      refine best l b hbest (ih _ ?_)
      rw [length_erase_of_mem (argmin_mem hbest), hn]
      rfl

/-- **A newcomer's place** is before the first item of larger rank. -/
theorem serviceOrder_concat (l : List α) (a : α) :
    serviceOrder f (l ++ [a])
      = (serviceOrder f l).insertIdx
      ((serviceOrder f l).findIdx (fun x => decide (f a < f x))) a := by
  induction l using service_induction f with
  | nil => rfl
  | best l best hbest ih =>
    have hmem : best ∈ l := argmin_mem hbest
    have hconcat : (l ++ [a]).argmin f = if f a < f best then some a else some best := by
      rw [argmin_concat, hbest]
    by_cases hlt : f a < f best
    · have hnew : a ∉ l := fun ha => absurd (le_of_mem_argmin ha hbest) (not_le.mpr hlt)
      have herase : (l ++ [a]).erase a = l := by
        rw [erase_append_right _ hnew]
        simp
      rw [if_pos hlt] at hconcat
      rw [serviceOrder_of_argmin hconcat, herase, serviceOrder_of_argmin hbest, findIdx_cons]
      simp [hlt]
    · have herase : (l ++ [a]).erase best = l.erase best ++ [a] := erase_append_left _ hmem
      rw [if_neg hlt] at hconcat
      rw [serviceOrder_of_argmin hconcat, herase, ih, serviceOrder_of_argmin hbest,
        findIdx_cons]
      simp [hlt]

theorem serviceOrder_perm (l : List α) : (serviceOrder f l).Perm l := by
  induction l using service_induction f with
  | nil => rfl
  | best l best hbest ih =>
    rw [serviceOrder_of_argmin hbest]
    exact (ih.cons best).trans (perm_cons_erase (argmin_mem hbest)).symm

theorem serviceOrder_sorted (l : List α) : (serviceOrder f l).Pairwise (fun a b => f a ≤ f b) := by
  induction l using service_induction f with
  | nil => exact List.Pairwise.nil
  | best l best hbest ih =>
    rw [serviceOrder_of_argmin hbest]
    refine List.Pairwise.cons (fun b hb => ?_) ih
    have hb' : b ∈ l := mem_of_mem_erase ((serviceOrder_perm _).mem_iff.mp hb)
    exact le_of_mem_argmin hb' hbest

theorem bestFirst_eq_take (n : Nat) (l : List α) : bestFirst f n l = (serviceOrder f l).take n := by
  induction n generalizing l with
  | zero => simp [bestFirst]
  | succ n ih =>
    cases hbest : l.argmin f with
    | none =>
      rw [argmin_eq_none] at hbest
      simp [hbest, bestFirst]
    | some best =>
      rw [serviceOrder_of_argmin hbest, take_succ_cons, ← ih, bestFirst, hbest]

end Velocity.Lib
