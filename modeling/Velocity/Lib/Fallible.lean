import Mathlib.Tactic.Common

namespace Velocity.Lib

/-!
# Fallible computations

`Except` as the code's `Result`.
-/

variable {ε α β : Type}

theorem bind_eq_ok {x : Except ε α} {f : α → Except ε β} {b : β} :
    x >>= f = .ok b ↔ ∃ a, x = .ok a ∧ f a = .ok b := by
  cases x with
  | error e | ok a => simp [bind, Except.bind]

def okOrElse (x : Option α) (e : ε) : Except ε α :=
  match x with
  | some a => .ok a
  | none => .error e

theorem okOrElse_eq_ok {x : Option α} {e : ε} {a : α} : okOrElse x e = .ok a ↔ x = some a := by
  cases x <;> simp [okOrElse]

end Velocity.Lib
