import Mathlib.Data.List.Basic
import Mathlib.Tactic.Common

namespace Velocity.Lib

/-!
# Cutting a list into chunks

`chunks n l` cuts `l` into consecutive pieces of `n` elements, the last one possibly shorter.
-/

variable {α : Type*}

def chunk (n : Nat) (l : List α) (i : Nat) : List α := (l.drop (i * n)).take n

def chunks (n : Nat) (l : List α) : List (List α) :=
  (List.range ((l.length + n - 1) / n)).map (chunk n l)

@[simp] theorem length_chunks (n : Nat) (l : List α) :
    (chunks n l).length = (l.length + n - 1) / n := by
  simp [chunks]

theorem flatMap_chunk (n : Nat) (l : List α) (k : Nat) :
    (List.range k).flatMap (chunk n l) = l.take (k * n) := by
  induction k with
  | zero => simp
  | succ k ih =>
    rw [List.range_succ, List.flatMap_append, ih, List.flatMap_singleton, chunk, Nat.succ_mul,
      ← List.take_add]

theorem length_le_chunks_mul {n : Nat} (hn : 0 < n) (l : List α) :
    l.length ≤ (chunks n l).length * n := by
  rw [length_chunks]
  have hdiv := Nat.div_add_mod (l.length + n - 1) n
  have hmod := Nat.mod_lt (l.length + n - 1) hn
  rw [Nat.mul_comm] at hdiv
  omega

theorem mul_lt_length_of_lt {n : Nat} (hn : 0 < n) {l : List α} {i : Nat}
    (hi : i < (chunks n l).length) : i * n < l.length := by
  rw [length_chunks] at hi
  have := (Nat.lt_div_iff_mul_lt hn).mp hi
  omega

end Velocity.Lib
