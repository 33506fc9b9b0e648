import Mathlib.Data.List.Basic
import Mathlib.Order.Bounds.Basic

namespace Velocity.Lib

open List

/-!
# Run-length encoded sequences

Runs `(a, stop)`: up to `stop` every element is `a`.
-/

variable {α : Type*}

/-! ### Common prefixes -/

def commonLength [DecidableEq α] : List α → List α → Nat
  | a :: as, b :: bs => if a = b then commonLength as bs + 1 else 0
  | _, _ => 0

section CommonLength

variable [DecidableEq α]

@[simp] theorem commonLength_nil_left (bs : List α) : commonLength [] bs = 0 := rfl

@[simp] theorem commonLength_nil_right (as : List α) : commonLength as [] = 0 := by
  cases as <;> rfl

theorem commonLength_cons (a b : α) (as bs : List α) :
    commonLength (a :: as) (b :: bs) = if a = b then commonLength as bs + 1 else 0 := rfl

theorem exists_commonPrefix (as bs : List α) :
    ∃ p, p <+: as ∧ p <+: bs ∧ p.length = commonLength as bs := by
  induction as generalizing bs with
  | nil => exact ⟨[], nil_prefix, nil_prefix, rfl⟩
  | cons a as ih =>
    cases bs with
    | nil => exact ⟨[], nil_prefix, nil_prefix, rfl⟩
    | cons b bs =>
      rw [commonLength_cons]
      split
      · next heq =>
        subst heq
        obtain ⟨p, hpa, hpb, hlen⟩ := ih bs
        exact ⟨a :: p, cons_prefix_cons.mpr ⟨rfl, hpa⟩, cons_prefix_cons.mpr ⟨rfl, hpb⟩,
          congrArg (· + 1) hlen⟩
      · exact ⟨[], nil_prefix, nil_prefix, rfl⟩

theorem length_le_commonLength {p as bs : List α} (ha : p <+: as) (hb : p <+: bs) :
    p.length ≤ commonLength as bs := by
  induction p generalizing as bs with
  | nil => exact Nat.zero_le _
  | cons x p ih =>
    cases as with
    | nil => exact absurd (prefix_nil.mp ha) (cons_ne_nil x p)
    | cons a as =>
      cases bs with
      | nil => exact absurd (prefix_nil.mp hb) (cons_ne_nil x p)
      | cons b bs =>
        obtain ⟨rfl, hpa⟩ := cons_prefix_cons.mp ha
        obtain ⟨rfl, hpb⟩ := cons_prefix_cons.mp hb
        rw [commonLength_cons, if_pos rfl, length_cons]
        exact Nat.succ_le_succ (ih hpa hpb)

theorem isGreatest_commonLength (as bs : List α) :
    IsGreatest {n | ∃ p, p <+: as ∧ p <+: bs ∧ p.length = n} (commonLength as bs) := by
  refine ⟨exists_commonPrefix as bs, ?_⟩
  rintro n ⟨p, ha, hb, rfl⟩
  exact length_le_commonLength ha hb

/-- The sequences part where the shorter of two runs ends, unless both end there. -/
theorem commonLength_replicate_append {a : α} {as bs : List α} (has : as.head? ≠ some a)
    (hbs : bs.head? ≠ some a) : ∀ m n : Nat,
      commonLength (List.replicate m a ++ as) (List.replicate n a ++ bs)
        = if m = n then m + commonLength as bs else min m n
  | 0, 0 => by simp
  | 0, n + 1 => by
    cases as with
    | nil => simp
    | cons x as =>
      have hx : x ≠ a := fun h => has (congrArg some h)
      simp [replicate_succ, commonLength_cons, hx]
  | m + 1, 0 => by
    cases bs with
    | nil => simp
    | cons x bs =>
      have hx : a ≠ x := fun h => hbs (congrArg some h.symm)
      simp [replicate_succ, commonLength_cons, hx]
  | m + 1, n + 1 => by
    rw [replicate_succ, replicate_succ, cons_append, cons_append,
      commonLength_cons, if_pos rfl, commonLength_replicate_append has hbs m n]
    by_cases hmn : m = n
    · rw [if_pos hmn, if_pos (congrArg (· + 1) hmn)]
      omega
    · rw [if_neg hmn, if_neg (fun h => hmn (Nat.succ.inj h))]
      omega

end CommonLength

theorem replicate_append_prefix_iff {a : α} {as bs : List α} (has : as.head? ≠ some a)
    (hbs : bs.head? ≠ some a) : ∀ m n : Nat,
      List.replicate m a ++ as <+: List.replicate n a ++ bs
        ↔ m = n ∧ as <+: bs ∨ m < n ∧ as = []
  | 0, 0 => by simp
  | 0, n + 1 => by
    cases as with
    | nil => simp
    | cons x as =>
      have hx : x ≠ a := fun h => has (congrArg some h)
      simp [replicate_succ, cons_prefix_cons, hx]
  | m + 1, 0 => by
    cases bs with
    | nil => simp [replicate_succ]
    | cons x bs =>
      have hx : a ≠ x := fun h => hbs (congrArg some h.symm)
      simp [replicate_succ, cons_prefix_cons, hx]
  | m + 1, n + 1 => by
    rw [replicate_succ, replicate_succ, cons_append, cons_append,
      cons_prefix_cons, replicate_append_prefix_iff has hbs m n]
    simp

/-! ### Runs -/

def expand : Nat → List (α × Nat) → List α
  | _, [] => []
  | start, (a, stop) :: runs => List.replicate (stop - start) a ++ expand stop runs

def Proper : Nat → List (α × Nat) → Prop
  | _, [] => True
  | start, (a, stop) :: runs =>
    start < stop ∧ runs.head?.map Prod.fst ≠ some a ∧ Proper stop runs

variable {start : Nat} {runs as bs : List (α × Nat)}

theorem head?_expand (h : Proper start runs) :
    (expand start runs).head? = runs.head?.map Prod.fst := by
  cases runs with
  | nil => rfl
  | cons run runs =>
    obtain ⟨n, hn⟩ : ∃ n, run.2 - start = n + 1 := ⟨run.2 - start - 1, by have := h.1; omega⟩
    simp [expand, hn, replicate_succ]

theorem expand_eq_nil_iff (h : Proper start runs) : expand start runs = [] ↔ runs = [] := by
  rw [← head?_eq_none_iff, head?_expand h, Option.map_eq_none_iff, head?_eq_none_iff]

theorem Proper.head?_expand_ne {run : α × Nat}
    (h : Proper start (run :: runs)) : (expand run.2 runs).head? ≠ some run.1 := by
  rw [head?_expand h.2.2]
  exact h.2.1

def agreeUpTo [DecidableEq α] : Nat → List (α × Nat) → List (α × Nat) → Nat
  | start, (a, m) :: as, (b, n) :: bs =>
    if a = b then if m = n then agreeUpTo m as bs else min m n else start
  | start, _, _ => start

/-- `as` stand for a prefix of what `bs` stand for. -/
def Within : List (α × Nat) → List (α × Nat) → Prop
  | [], _ => True
  | _ :: _, [] => False
  | (a, m) :: as, (b, n) :: bs => a = b ∧ (m = n ∧ Within as bs ∨ m < n ∧ as = [])

variable {a : α}

theorem commonLength_of_head?_ne [DecidableEq α] {as bs : List α} {b : α}
    (ha : as.head? = some a) (hb : bs.head? = some b) (hab : a ≠ b) : commonLength as bs = 0 := by
  obtain ⟨as, rfl⟩ := head?_eq_some_iff.mp ha
  obtain ⟨bs, rfl⟩ := head?_eq_some_iff.mp hb
  rw [commonLength_cons, if_neg hab]

theorem not_prefix_of_head?_ne {as bs : List α} {b : α} (ha : as.head? = some a)
    (hb : bs.head? = some b) (hab : a ≠ b) : ¬ as <+: bs := by
  obtain ⟨as, rfl⟩ := head?_eq_some_iff.mp ha
  obtain ⟨bs, rfl⟩ := head?_eq_some_iff.mp hb
  exact fun h => hab (cons_prefix_cons.mp h).1

theorem commonLength_expand [DecidableEq α] (ha : Proper start as) (hb : Proper start bs) :
    start + commonLength (expand start as) (expand start bs) = agreeUpTo start as bs := by
  induction as generalizing start bs with
  | nil => simp [expand, agreeUpTo]
  | cons run as ih =>
    cases bs with
    | nil => simp [expand, agreeUpTo]
    | cons run' bs =>
      obtain ⟨a, m⟩ := run
      obtain ⟨b, n⟩ := run'
      rw [agreeUpTo]
      by_cases hab : a = b
      · subst hab
        have hm : start < m := ha.1
        have hn : start < n := hb.1
        rw [if_pos rfl, expand, expand,
          commonLength_replicate_append ha.head?_expand_ne hb.head?_expand_ne]
        by_cases hmn : m = n
        · subst hmn
          rw [if_pos rfl, if_pos rfl, ← ih ha.2.2 hb.2.2]
          dsimp only
          omega
        · rw [if_neg (by omega), if_neg hmn]
          omega
      · rw [if_neg hab, commonLength_of_head?_ne (head?_expand ha) (head?_expand hb) hab,
          Nat.add_zero]

theorem expand_prefix_iff (ha : Proper start as)
    (hb : Proper start bs) : expand start as <+: expand start bs ↔ Within as bs := by
  induction as generalizing start bs with
  | nil => exact iff_of_true nil_prefix trivial
  | cons run as ih =>
    obtain ⟨a, m⟩ := run
    cases bs with
    | nil =>
      refine iff_of_false (fun h => ?_) id
      exact cons_ne_nil _ _ ((expand_eq_nil_iff ha).mp (prefix_nil.mp h))
    | cons run' bs =>
      obtain ⟨b, n⟩ := run'
      rw [Within]
      by_cases hab : a = b
      · subst hab
        have hm : start < m := ha.1
        have hn : start < n := hb.1
        have heq : m - start = n - start ↔ m = n := by omega
        have hlt : m - start < n - start ↔ m < n := by omega
        rw [expand, expand, replicate_append_prefix_iff ha.head?_expand_ne hb.head?_expand_ne, heq,
          hlt, expand_eq_nil_iff ha.2.2]
        constructor
        · rintro (⟨rfl, h⟩ | h)
          · exact ⟨rfl, .inl ⟨rfl, (ih ha.2.2 hb.2.2).mp h⟩⟩
          · exact ⟨rfl, .inr h⟩
        · rintro ⟨-, ⟨rfl, h⟩ | h⟩
          · exact .inl ⟨rfl, (ih ha.2.2 hb.2.2).mpr h⟩
          · exact .inr h
      · refine iff_of_false ?_ (fun h => hab h.1)
        exact not_prefix_of_head?_ne (head?_expand ha) (head?_expand hb) hab

/-! ### Equal ends -/

theorem within_concat (runs : List (α × Nat)) (a : α) {m n : Nat} (hle : m ≤ n) :
    Within (runs ++ [(a, m)]) (runs ++ [(a, n)]) := by
  induction runs with
  | nil =>
    rcases Nat.lt_or_eq_of_le hle with hlt | heq
    · exact ⟨rfl, .inr ⟨hlt, rfl⟩⟩
    · exact ⟨rfl, .inl ⟨heq, trivial⟩⟩
  | cons run runs ih => exact ⟨rfl, .inl ⟨rfl, ih⟩⟩

theorem Within.eq_of_concat {m n : Nat}
    (h : Within (as ++ [(a, m)]) (bs ++ [(a, n)])) (hnew : a ∉ bs.map Prod.fst) : as = bs := by
  induction as generalizing bs with
  | nil =>
    cases bs with
    | nil => rfl
    | cons run bs =>
      have heq : a = run.1 := h.1
      exact absurd (heq ▸ mem_cons_self) hnew
  | cons run as ih =>
    cases bs with
    | nil =>
      rcases h.2 with ⟨-, hwithin⟩ | ⟨-, hnil⟩
      · exact absurd hwithin (by cases as <;> exact id)
      · exact absurd hnil (by simp)
    | cons run' bs =>
      rcases h.2 with ⟨hstop, hwithin⟩ | ⟨-, hnil⟩
      · have htail : as = bs := ih hwithin (fun hmem => hnew (mem_cons_of_mem _ hmem))
        rw [htail, Prod.ext h.1 hstop]
      · exact absurd hnil (by simp)

end Velocity.Lib
