import Mathlib.Data.List.Count
import Mathlib.Logic.Function.Iterate
import Mathlib.Tactic.Common

namespace Velocity.Lib

/-!
# Two components over a shared state

A component that sees only a view that the other keeps runs as if alone.
-/

inductive Side where
  | first
  | second
  deriving DecidableEq, Repr

def Side.other : Side → Side
  | .first => .second
  | .second => .first

theorem Side.other_injective : Function.Injective Side.other := by
  rintro (_ | _) (_ | _) h <;> first | rfl | cases h

structure Pair (A B E : Type*) where
  first : A
  second : B
  shared : E

variable {A B E V : Type*} {f : A → E → A × E} {g : B → E → B × E} {view : E → V}

def Pair.swap (s : Pair A B E) : Pair B A E := ⟨s.second, s.first, s.shared⟩

def Pair.step (f : A → E → A × E) (g : B → E → B × E) (s : Pair A B E) : Side → Pair A B E
  | .first => ⟨(f s.first s.shared).1, s.second, (f s.first s.shared).2⟩
  | .second => ⟨s.first, (g s.second s.shared).1, (g s.second s.shared).2⟩

def interleave (f : A → E → A × E) (g : B → E → B × E) (schedule : List Side)
    (s : Pair A B E) : Pair A B E :=
  schedule.foldl (Pair.step f g) s

def alone (f : A → E → A × E) (n : Nat) (s : A × E) : A × E :=
  (fun s => f s.1 s.2)^[n] s

@[simp] theorem alone_zero (s : A × E) : alone f 0 s = s := rfl

theorem alone_succ (n : Nat) (s : A × E) : alone f (n + 1) s = alone f n (f s.1 s.2) := rfl

theorem alone_add (m n : Nat) (s : A × E) : alone f (m + n) s = alone f n (alone f m s) := by
  rw [alone, Nat.add_comm, Function.iterate_add_apply]
  rfl

/-- A step depends on the view only. -/
def SeesOnly (f : A → E → A × E) (view : E → V) : Prop :=
  ∀ a e e', view e = view e' → (f a e).1 = (f a e').1 ∧ view (f a e).2 = view (f a e').2

def Keeps (g : B → E → B × E) (view : E → V) : Prop :=
  ∀ b e, view (g b e).2 = view e

/-- **Independence** from a component that keeps the view, under every schedule. -/
theorem interleave_first_eq_alone (hf : SeesOnly f view) (hg : Keeps g view)
    (schedule : List Side) (s : Pair A B E) {e : E} (he : view s.shared = view e) :
    (interleave f g schedule s).first = (alone f (schedule.count .first) (s.first, e)).1
      ∧ view (interleave f g schedule s).shared
          = view (alone f (schedule.count .first) (s.first, e)).2 := by
  -- only the views agree
  induction schedule generalizing s e with
  | nil => exact ⟨rfl, he⟩
  | cons side schedule ih =>
    cases side with
    | first =>
      obtain ⟨hown, hview⟩ := hf s.first s.shared e he
      rw [List.count_cons_self, alone_succ]
      have hrest := ih (s.step f g .first) hview
      rwa [show (s.step f g .first).first = (f s.first e).1 from hown] at hrest
    | second =>
      rw [List.count_cons_of_ne (by decide)]
      exact ih (s.step f g .second) ((hg s.second s.shared).trans he)

theorem step_swap (s : Pair A B E) (side : Side) :
    (s.step f g side).swap = s.swap.step g f side.other := by
  cases side <;> rfl

theorem interleave_swap (schedule : List Side) (s : Pair A B E) :
    (interleave f g schedule s).swap = interleave g f (schedule.map Side.other) s.swap := by
  induction schedule generalizing s with
  | nil => rfl
  | cons side schedule ih =>
    show (interleave f g schedule (s.step f g side)).swap = _
    rw [ih, step_swap]
    rfl

theorem interleave_second_eq_alone (hg : SeesOnly g view) (hf : Keeps f view)
    (schedule : List Side) (s : Pair A B E) {e : E} (he : view s.shared = view e) :
    (interleave f g schedule s).second = (alone g (schedule.count .second) (s.second, e)).1
      ∧ view (interleave f g schedule s).shared
          = view (alone g (schedule.count .second) (s.second, e)).2 := by
  have hswap := interleave_first_eq_alone hg hf (schedule.map Side.other) s.swap he
  rw [← interleave_swap, show Side.first = Side.other .second from rfl,
    List.count_map_of_injective _ _ Side.other_injective] at hswap
  exact hswap

end Velocity.Lib
