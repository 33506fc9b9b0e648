import Mathlib.Algebra.Order.BigOperators.Group.Finset
import Velocity.Lib.Replicas
import Velocity.Lib.WordBits

namespace Velocity.Crdt

open Lib Finset

/-!
# The PN-counter

`PNCounter`: sums of additions and subtractions; a merge keeps the larger.

* `Tally`: a counter with the updates made at it.
* `countsEvery_iff`: which histories are counted in full.
-/

structure PNCounter where
  increments : UInt64
  decrements : UInt64
  deriving DecidableEq, Repr

namespace PNCounter

def new : PNCounter := ⟨0, 0⟩

def value (p : PNCounter) : Int64 := p.increments.toInt64 - p.decrements.toInt64

def inc (p : PNCounter) (delta : UInt64) : PNCounter :=
  { p with increments := saturatingAdd p.increments delta }

def dec (p : PNCounter) (delta : UInt64) : PNCounter :=
  { p with decrements := saturatingAdd p.decrements delta }

variable (p other : PNCounter)

def merge : PNCounter where
  increments := if other.increments > p.increments then other.increments else p.increments
  decrements := if other.decrements > p.decrements then other.decrements else p.decrements

theorem toNat_ite_gt (a b : UInt64) : (if b > a then b else a).toNat = max a.toNat b.toNat := by
  by_cases h : a < b
  · rw [if_pos h, Nat.max_eq_right (Nat.le_of_lt (UInt64.lt_iff_toNat_lt.mp h))]
  · rw [if_neg h, Nat.max_eq_left (UInt64.le_iff_toNat_le.mp (UInt64.not_lt.mp h))]

theorem increments_merge :
    (p.merge other).increments.toNat = max p.increments.toNat other.increments.toNat :=
  toNat_ite_gt _ _

theorem decrements_merge :
    (p.merge other).decrements.toNat = max p.decrements.toNat other.decrements.toNat :=
  toNat_ite_gt _ _

end PNCounter

/-! ### Replicas -/

inductive CounterOp where
  | inc (delta : UInt64)
  | dec (delta : UInt64)

structure Tally where
  counter : PNCounter
  incremented : Nat
  decremented : Nat

namespace Tally

def new : Tally := ⟨PNCounter.new, 0, 0⟩

def apply (t : Tally) : CounterOp → Tally
  | .inc delta =>
    { t with counter := t.counter.inc delta, incremented := t.incremented + delta.toNat }
  | .dec delta =>
    { t with counter := t.counter.dec delta, decremented := t.decremented + delta.toNat }

def merge (t other : Tally) : Tally := { t with counter := t.counter.merge other.counter }

def incs (t : Tally) : Nat := t.counter.increments.toNat

def decs (t : Tally) : Nat := t.counter.decrements.toNat

end Tally

def tallied : Replicated Tally CounterOp := ⟨Tally.apply, Tally.merge⟩

def unused {ι : Type} : ι → Tally := fun _ => Tally.new

section System

variable {ι : Type} [Fintype ι] [DecidableEq ι]

def exchanged (c : ι → Tally) (r : ι) (sources : List ι) : PNCounter :=
  sources.foldl (fun p j => p.merge (c j).counter) (c r).counter

/-- After all merges, each replica reads the true value. -/
def CountsEvery (c : ι → Tally) : Prop :=
  ∀ r sources, (∀ j, j ≠ r → j ∈ sources) →
    (exchanged c r sources).value.toInt
      = ((∑ j, (c j).incremented : Nat) : Int) - (∑ j, (c j).decremented : Nat)

/-- Both totals are below `2 ^ 63`, so that `value` does not wrap. -/
def TotalsFit (c : ι → Tally) : Prop :=
  ∑ j, (c j).incremented < 2 ^ 63 ∧ ∑ j, (c j).decremented < 2 ^ 63

/-- It has the largest count of its kind, or counts nothing. -/
def UpToDate (c : ι → Tally) : ReplicaOp ι CounterOp → Prop
  | .update i (.inc delta) =>
    delta = 0 ∨ ∀ j, (c j).counter.increments ≤ (c i).counter.increments
  | .update i (.dec delta) =>
    delta = 0 ∨ ∀ j, (c j).counter.decrements ≤ (c i).counter.decrements
  | .merge _ _ => True

instance (c : ι → Tally) : DecidablePred (UpToDate c)
  | .update i (.inc delta) => inferInstanceAs (Decidable
      (delta = 0 ∨ ∀ j, (c j).counter.increments ≤ (c i).counter.increments))
  | .update i (.dec delta) => inferInstanceAs (Decidable
      (delta = 0 ∨ ∀ j, (c j).counter.decrements ≤ (c i).counter.decrements))
  | .merge _ _ => inferInstanceAs (Decidable True)

/-! ### After an exchange -/

theorem exchanged_eq_sup (c : ι → Tally) (r : ι) {sources : List ι}
    (hall : ∀ j, j ≠ r → j ∈ sources) (count : PNCounter → Nat)
    (hmerge : ∀ p q, count (p.merge q) = max (count p) (count q)) :
    count (exchanged c r sources) = univ.sup (fun j => count (c j).counter) := by
  have hfold : ∀ (js : List ι) (p : PNCounter) (n : Nat),
      count (js.foldl (fun p j => p.merge (c j).counter) p) ≤ n
        ↔ count p ≤ n ∧ ∀ j ∈ js, count (c j).counter ≤ n := by
    intro js
    induction js with
    | nil => simp
    | cons j js ih =>
      intro p n
      rw [List.foldl_cons, ih, hmerge, Nat.max_le, List.forall_mem_cons, and_assoc]
  refine eq_of_forall_ge_iff (fun n => ?_)
  rw [exchanged, hfold, Finset.sup_le_iff]
  constructor
  · rintro ⟨hr, hsources⟩ j _
    by_cases hj : j = r
    · exact hj ▸ hr
    · exact hsources j (hall j hj)
  · exact fun h => ⟨h r (mem_univ r), fun j _ => h j (mem_univ j)⟩

variable {c : ι → Tally}

theorem value_exchanged (hincs : univ.sup (Tally.incs ∘ c) < 2 ^ 63)
    (hdecs : univ.sup (Tally.decs ∘ c) < 2 ^ 63) (r : ι) {sources : List ι}
    (hall : ∀ j, j ≠ r → j ∈ sources) :
    (exchanged c r sources).value.toInt
      = ((univ.sup (Tally.incs ∘ c) : Nat) : Int)
        - (univ.sup (Tally.decs ∘ c) : Nat) := by
  have hi : (exchanged c r sources).increments.toNat = univ.sup (Tally.incs ∘ c) :=
    exchanged_eq_sup c r hall (fun p => p.increments.toNat) PNCounter.increments_merge
  have hd : (exchanged c r sources).decrements.toNat = univ.sup (Tally.decs ∘ c) :=
    exchanged_eq_sup c r hall (fun p => p.decrements.toNat) PNCounter.decrements_merge
  rw [PNCounter.value, toInt_sub_toInt64 (by rw [hi]; exact hincs) (by rw [hd]; exact hdecs),
    hi, hd]

theorem countsEvery_iff_sup (r : ι) (hincs : univ.sup (Tally.incs ∘ c) < 2 ^ 63)
    (hdecs : univ.sup (Tally.decs ∘ c) < 2 ^ 63) :
    CountsEvery c
      ↔ ((univ.sup (Tally.incs ∘ c) : Nat) : Int) - (univ.sup (Tally.decs ∘ c) : Nat)
        = ((∑ j, (c j).incremented : Nat) : Int) - (∑ j, (c j).decremented : Nat) := by
  constructor
  · intro hall
    have hsources : ∀ j, j ≠ r → j ∈ (univ : Finset ι).toList := by simp
    rw [← value_exchanged hincs hdecs r hsources]
    exact hall r _ hsources
  · intro heq r' sources hsources
    rw [value_exchanged hincs hdecs r' hsources, heq]

/-! ### One event -/

structure Exact (c : ι → Tally) : Prop where
  incs : CountedByMax Tally.incs Tally.incremented c
  decs : CountedByMax Tally.decs Tally.decremented c

theorem Exact.countsEvery (h : Exact c) (hfits : TotalsFit c) : CountsEvery c := by
  have hincs := h.incs
  have hdecs := h.decs
  unfold CountedByMax at hincs hdecs
  intro r sources hsources
  rw [value_exchanged (hincs ▸ hfits.1) (hdecs ▸ hfits.2) r hsources, hincs, hdecs]

variable {delta : UInt64}

theorem incs_apply_inc (h : Exact c) {i : ι}
    (hfits : TotalsFit (tallied.step c (.update i (.inc delta)))) :
    ((c i).apply (.inc delta)).incs = (c i).incs + delta.toNat := by
  have hsum : ∑ j, (tallied.step c (.update i (.inc delta)) j).incremented
      = (∑ j, (c j).incremented) + delta.toNat := sum_performed_update rfl
  have hle := count_le_sup Tally.incs c i
  rw [h.incs] at hle
  have hlt := hfits.1
  rw [hsum] at hlt
  exact toNat_saturatingAdd_of_lt (show (c i).incs + delta.toNat < 2 ^ 64 by omega)

theorem decs_apply_dec (h : Exact c) {i : ι}
    (hfits : TotalsFit (tallied.step c (.update i (.dec delta)))) :
    ((c i).apply (.dec delta)).decs = (c i).decs + delta.toNat := by
  have hsum : ∑ j, (tallied.step c (.update i (.dec delta)) j).decremented
      = (∑ j, (c j).decremented) + delta.toNat := sum_performed_update rfl
  have hle := count_le_sup Tally.decs c i
  rw [h.decs] at hle
  have hlt := hfits.2
  rw [hsum] at hlt
  exact toNat_saturatingAdd_of_lt (show (c i).decs + delta.toNat < 2 ^ 64 by omega)

theorem toNat_eq_zero_or {P Q : Prop} (h : P ↔ Q) : (delta.toNat = 0 ∨ P) ↔ (delta = 0 ∨ Q) := by
  rw [h, ← UInt64.toNat_inj]
  rfl

variable {op : ReplicaOp ι CounterOp}

theorem Exact.step_iff (h : Exact c)
    (hfits : TotalsFit (tallied.step c op)) : Exact (tallied.step c op) ↔ UpToDate c op := by
  cases op with
  | update i op =>
    cases op with
    | inc delta =>
      have hincs : CountedByMax Tally.incs Tally.incremented _ ↔ _ :=
        h.incs.update_iff (incs_apply_inc h hfits) rfl
      have hdecs : CountedByMax Tally.decs Tally.decremented _ :=
        h.decs.same (s := (c i).apply (.inc delta)) rfl rfl
      refine Iff.trans ⟨fun h' => h'.incs, fun h' => ⟨h', hdecs⟩⟩ (hincs.trans ?_)
      exact toNat_eq_zero_or (forall_congr' (fun _ => UInt64.le_iff_toNat_le.symm))
    | dec delta =>
      have hdecs : CountedByMax Tally.decs Tally.decremented _ ↔ _ :=
        h.decs.update_iff (decs_apply_dec h hfits) rfl
      have hincs : CountedByMax Tally.incs Tally.incremented _ :=
        h.incs.same (s := (c i).apply (.dec delta)) rfl rfl
      refine Iff.trans ⟨fun h' => h'.decs, fun h' => ⟨hincs, h'⟩⟩ (hdecs.trans ?_)
      exact toNat_eq_zero_or (forall_congr' (fun _ => UInt64.le_iff_toNat_le.symm))
  | merge i j =>
    have hincs := h.incs.merge (s := (c i).merge (c j)) (PNCounter.increments_merge _ _) rfl
    have hdecs := h.decs.merge (s := (c i).merge (c j)) (PNCounter.decrements_merge _ _) rfl
    exact ⟨fun _ => trivial, fun _ => ⟨hincs, hdecs⟩⟩

theorem Exact.of_countsEvery (h : Exact c)
    (hfits : TotalsFit (tallied.step c op)) (hcounts : CountsEvery (tallied.step c op)) :
    Exact (tallied.step c op) := by
  cases op with
  | merge i j => exact (h.step_iff hfits).mpr trivial
  | update i op =>
    cases op with
    | inc delta =>
      have hdecs := h.decs.same (i := i) (s := (c i).apply (.inc delta)) rfl rfl
      have hle := h.incs.sup_update_le (incs_apply_inc h hfits) rfl
      have hread := (countsEvery_iff_sup i (Nat.lt_of_le_of_lt hle hfits.1)
        (hdecs ▸ hfits.2)).mp hcounts
      rw [hdecs] at hread
      have hincs : CountedByMax Tally.incs Tally.incremented
          (Function.update c i ((c i).apply (.inc delta))) := by
        unfold CountedByMax
        omega
      exact ⟨hincs, hdecs⟩
    | dec delta =>
      have hincs := h.incs.same (i := i) (s := (c i).apply (.dec delta)) rfl rfl
      have hle := h.decs.sup_update_le (decs_apply_dec h hfits) rfl
      have hread := (countsEvery_iff_sup i (hincs ▸ hfits.1)
        (Nat.lt_of_le_of_lt hle hfits.2)).mp hcounts
      rw [hincs] at hread
      have hdecs : CountedByMax Tally.decs Tally.decremented
          (Function.update c i ((c i).apply (.dec delta))) := by
        unfold CountedByMax
        omega
      exact ⟨hincs, hdecs⟩

/-! ### Whole histories -/

omit [DecidableEq ι] in
theorem exact_unused : Exact (unused : ι → Tally) where
  incs := (sup_bot univ).trans sum_const_zero.symm
  decs := (sup_bot univ).trans sum_const_zero.symm

theorem TotalsFit.of_step (h : TotalsFit (tallied.step c op)) : TotalsFit c := by
  have hgrows : ∀ j, (c j).incremented ≤ (tallied.step c op j).incremented
      ∧ (c j).decremented ≤ (tallied.step c op j).decremented := by
    refine Replicated.forall_step
      (P := fun j (t : Tally) =>
        (c j).incremented ≤ t.incremented ∧ (c j).decremented ≤ t.decremented)
      (fun _ => ⟨Nat.le_refl _, Nat.le_refl _⟩) (fun i o _ => ?_)
      (fun i j _ => ⟨Nat.le_refl _, Nat.le_refl _⟩)
    cases o with
    | inc delta => exact ⟨Nat.le_add_right _ _, Nat.le_refl _⟩
    | dec delta => exact ⟨Nat.le_refl _, Nat.le_add_right _ _⟩
  exact ⟨Nat.lt_of_le_of_lt (sum_le_sum (fun j _ => (hgrows j).1)) h.1,
    Nat.lt_of_le_of_lt (sum_le_sum (fun j _ => (hgrows j).2)) h.2⟩

theorem TotalsFit.stepsMeet :
    ∀ {ops : List (ReplicaOp ι CounterOp)} {c : ι → Tally}, TotalsFit (tallied.run c ops) →
      TotalsFit c ∧ StepsMeet tallied.step (fun c op => TotalsFit (tallied.step c op)) c ops
  | [], _, h => ⟨h, trivial⟩
  | op :: ops, c, h =>
    have h' : TotalsFit (tallied.run (tallied.step c op) ops) := h
    have hrest := TotalsFit.stepsMeet h'
    ⟨hrest.1.of_step, hrest.1, hrest.2⟩

/-- **Counting.** Every update counts iff it was made at a replica with the largest count of its
    kind. -/
theorem countsEvery_iff (ops : List (ReplicaOp ι CounterOp))
    (hfits : TotalsFit (tallied.run unused ops)) :
    (∀ ps, ps <+: ops → CountsEvery (tallied.run unused ps))
      ↔ StepsMeet tallied.step UpToDate unused ops := by
  have hkeeps : ∀ (c : ι → Tally) op, Exact c ∧ TotalsFit c →
      TotalsFit (tallied.step c op) → UpToDate c op →
      Exact (tallied.step c op) ∧ TotalsFit (tallied.step c op) :=
    fun c op h hop hgood => ⟨(h.1.step_iff hop).mpr hgood, hop⟩
  have hexact : ∀ (c : ι → Tally) op, Exact c ∧ TotalsFit c → TotalsFit (tallied.step c op) →
      CountsEvery (tallied.step c op) → UpToDate c op :=
    fun c op h hop hcounts => (h.1.step_iff hop).mp (h.1.of_countsEvery hop hcounts)
  have hall := hfits.stepsMeet
  exact forall_prefixes_iff_stepsMeet (fun _ h => h.1.countsEvery h.2) hkeeps hexact
    ⟨exact_unused, hall.1⟩ hall.2

end System

theorem countsEvery_in_turn :
    CountsEvery (tallied.run (unused : Fin 2 → Tally)
      [.update 0 (.inc 3), .merge 1 0, .update 1 (.inc 4), .update 1 (.dec 2)]) :=
  (countsEvery_iff (ι := Fin 2)
    [.update 0 (.inc 3), .merge 1 0, .update 1 (.inc 4), .update 1 (.dec 2)]
    (by unfold TotalsFit; decide)).mpr (by decide) _ (List.prefix_refl _)

theorem concurrent_increments_lost :
    let c := tallied.run (unused : Fin 2 → Tally) [.update 0 (.inc 10), .update 1 (.inc 15)]
    (exchanged c 0 [1]).value = 15 ∧ (exchanged c 1 [0]).value = 15
      ∧ ∑ j, (c j).incremented = 25 ∧ ∑ j, (c j).decremented = 0 := by
  decide

end Velocity.Crdt
