import Mathlib.Tactic.Common

namespace Velocity.Lib

open List

/-!
# Arrays of slots

A small array whose slots are scanned from the front.
-/

variable {α : Type*}

theorem split_of_findIdx? {p : α → Bool} {l : List α} {i : Nat} (h : l.findIdx? p = some i) :
    ∃ pre a post, l = pre ++ a :: post ∧ pre.length = i ∧ p a = true
      ∧ ∀ x ∈ pre, p x = false := by
  obtain ⟨hi, hp, hbefore⟩ := findIdx?_eq_some_iff_getElem.mp h
  refine ⟨l.take i, l[i], l.drop (i + 1), by simp, by simp; omega, hp, ?_⟩
  intro x hx
  obtain ⟨j, hj, rfl⟩ := getElem_of_mem hx
  have hji : j < i := by
    rw [length_take] at hj
    omega
  rw [getElem_take]
  exact Bool.eq_false_iff.mpr (hbefore j hji)

theorem modify_split (f : α → α) (pre : List α) (a : α) (post : List α) :
    (pre ++ a :: post).modify pre.length f = pre ++ f a :: post := by
  induction pre with
  | nil => rfl
  | cons x pre ih => exact congrArg (x :: ·) ih

theorem getElem?_modify_eq_ite (f : α → α) (l : List α) (i j : Nat) :
    (l.modify i f)[j]? = if j = i then l[j]?.map f else l[j]? := by
  rw [getElem?_modify]
  by_cases hij : i = j
  · simp [hij]
  · simp [hij, Ne.symm hij]

theorem find?_split_of_not {p : α → Bool} {a b : α} (ha : p a = false) (hb : p b = false)
    (pre post : List α) : (pre ++ a :: post).find? p = (pre ++ b :: post).find? p := by
  rw [find?_append, find?_append, find?_cons_of_neg (by simp [ha]),
    find?_cons_of_neg (by simp [hb])]

theorem find?_split_of_first {p : α → Bool} {a : α} (ha : p a = true) {pre : List α}
    (hpre : ∀ x ∈ pre, p x = false) (post : List α) : (pre ++ a :: post).find? p = some a := by
  rw [find?_append, find?_eq_none.mpr (by simpa using hpre), find?_cons_of_pos ha]
  rfl

end Velocity.Lib
