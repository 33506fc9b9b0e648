import Mathlib.Data.List.Basic
import Mathlib.Tactic.Common

namespace Velocity.Lib

/-!
# Runs of a deterministic step function

A run is a left fold. `StepsMeet` reads its condition in the state *before* a step.

* `StepsMeet`: every step of a run meets a condition.
* `foldl_invariant`, `foldl_simulation`: invariants and simulations along a run.
* `forall_prefixes_iff_stepsMeet`: a property of all prefixes as a condition on the steps.
-/

variable {σ τ ι : Type*} {step : σ → ι → σ} {good : σ → ι → Prop}

/-- Every step of the run meets `good`, read before the step. -/
def StepsMeet (step : σ → ι → σ) (good : σ → ι → Prop) : σ → List ι → Prop
  | _, [] => True
  | s, i :: is => good s i ∧ StepsMeet step good (step s i) is

instance StepsMeet.decidable [∀ s i, Decidable (good s i)] :
    ∀ (s : σ) (is : List ι), Decidable (StepsMeet step good s is)
  | _, [] => inferInstanceAs (Decidable True)
  | s, i :: is =>
    haveI := StepsMeet.decidable (step s i) is
    inferInstanceAs (Decidable (good s i ∧ StepsMeet step good (step s i) is))

@[simp] theorem stepsMeet_nil (s : σ) : StepsMeet step good s [] := trivial

@[simp] theorem stepsMeet_cons (s : σ) (i : ι) (is : List ι) :
    StepsMeet step good s (i :: is) ↔ good s i ∧ StepsMeet step good (step s i) is :=
  Iff.rfl

theorem stepsMeet_append (s : σ) (is js : List ι) :
    StepsMeet step good s (is ++ js)
      ↔ StepsMeet step good s is ∧ StepsMeet step good (is.foldl step s) js := by
  induction is generalizing s with
  | nil => simp
  | cons i is ih => simp only [List.cons_append, stepsMeet_cons, List.foldl_cons, ih, and_assoc]

theorem stepsMeet_iff_prefixes (s : σ) (is : List ι) :
    StepsMeet step good s is
      ↔ ∀ ps i, ps ++ [i] <+: is → good (ps.foldl step s) i := by
  constructor
  · rintro h ps i ⟨rest, rfl⟩
    have hps := (stepsMeet_append s (ps ++ [i]) rest).mp h
    exact ((stepsMeet_append s ps [i]).mp hps.1).2.1
  · intro h
    induction is generalizing s with
    | nil => trivial
    | cons j js ih =>
      refine ⟨h [] j (by simp), ih (step s j) ?_⟩
      intro ps i hpre
      exact h (j :: ps) i (by simpa using hpre)

theorem StepsMeet.initial {s : σ} {ps is : List ι} (h : StepsMeet step good s is)
    (hp : ps <+: is) : StepsMeet step good s ps := by
  obtain ⟨rest, rfl⟩ := hp
  exact ((stepsMeet_append s ps rest).mp h).1

theorem StepsMeet.mono {good' : σ → ι → Prop} (himp : ∀ s i, good s i → good' s i) :
    ∀ {s : σ} {is : List ι}, StepsMeet step good s is → StepsMeet step good' s is
  | _, [], _ => trivial
  | s, i :: _, h => ⟨himp s i h.1, StepsMeet.mono himp h.2⟩

theorem StepsMeet.and {good' : σ → ι → Prop} :
    ∀ {s : σ} {is : List ι}, StepsMeet step good s is → StepsMeet step good' s is →
      StepsMeet step (fun s i => good s i ∧ good' s i) s is
  | _, [], _, _ => trivial
  | _, _ :: _, h, h' => ⟨⟨h.1, h'.1⟩, StepsMeet.and h.2 h'.2⟩

theorem stepsMeet_of_mem :
    ∀ {s : σ} {is : List ι}, (∀ i ∈ is, ∀ s, good s i) → StepsMeet step good s is
  | _, [], _ => trivial
  | s, i :: _, h =>
    ⟨h i List.mem_cons_self s, stepsMeet_of_mem (fun j hj => h j (List.mem_cons_of_mem i hj))⟩

theorem stepsMeet_of_forall {P : ι → Prop} {s : σ} {is : List ι} (h : ∀ i ∈ is, P i) :
    StepsMeet step (fun _ i => P i) s is :=
  stepsMeet_of_mem (fun i hi _ => h i hi)

/-- **Invariant rule**, for steps that meet a condition. -/
theorem foldl_invariant {I : σ → Prop} (hstep : ∀ s i, I s → good s i → I (step s i)) :
    ∀ (is : List ι) (s : σ), I s → StepsMeet step good s is → I (is.foldl step s)
  | [], _, hs, _ => hs
  | i :: is, s, hs, hgood =>
    foldl_invariant hstep is (step s i) (hstep s i hs hgood.1) hgood.2

/-- **Exactness rule.** Admitted steps keep `I` when they meet the condition and break `J` when
    not, so `J` holds along a run iff all meet it. -/
theorem forall_prefixes_iff_stepsMeet {I J : σ → Prop} {adm : σ → ι → Prop} (hIJ : ∀ s, I s → J s)
    (hkeeps : ∀ s i, I s → adm s i → good s i → I (step s i))
    (hexact : ∀ s i, I s → adm s i → J (step s i) → good s i) {s : σ} (hs : I s) {is : List ι}
    (hadm : StepsMeet step adm s is) :
    (∀ ps, ps <+: is → J (ps.foldl step s)) ↔ StepsMeet step good s is := by
  constructor
  · intro hall
    induction is generalizing s with
    | nil => trivial
    | cons i is ih =>
      have hgood : good s i := hexact s i hs hadm.1 (hall [i] ⟨is, rfl⟩)
      refine ⟨hgood, ih (hkeeps s i hs hadm.1 hgood) hadm.2 (fun ps hpre => ?_)⟩
      exact hall (i :: ps) ((List.prefix_cons_inj i).mpr hpre)
  · intro hgood ps hpre
    refine hIJ _ (foldl_invariant (fun s i hI hboth => ?_) ps s hs ((hadm.and hgood).initial hpre))
    exact hkeeps s i hI hboth.1 hboth.2

/-- **Exactness rule for steps**, where under the invariant `P` says what the condition says. -/
theorem stepsMeet_iff_stepsMeet {I : σ → Prop} {adm P : σ → ι → Prop}
    (hkeeps : ∀ s i, I s → adm s i → good s i → I (step s i))
    (hexact : ∀ s i, I s → adm s i → (P s i ↔ good s i)) {s : σ} (hs : I s) {is : List ι}
    (hadm : StepsMeet step adm s is) : StepsMeet step P s is ↔ StepsMeet step good s is := by
  induction is generalizing s with
  | nil => exact Iff.rfl
  | cons i is ih =>
    rw [stepsMeet_cons, stepsMeet_cons, hexact s i hs hadm.1]
    exact and_congr_right fun hgood => ih (hkeeps s i hs hadm.1 hgood) hadm.2

/-- **Simulation rule**, for two machines that take the same inputs. -/
theorem foldl_simulation {step' : τ → ι → τ} {R : σ → τ → Prop}
    (hstep : ∀ s t i, R s t → good s i → R (step s i) (step' t i)) :
    ∀ (is : List ι) (s : σ) (t : τ), R s t → StepsMeet step good s is →
      R (is.foldl step s) (is.foldl step' t)
  | [], _, _, hst, _ => hst
  | i :: is, s, t, hst, hgood =>
    foldl_simulation hstep is (step s i) (step' t i) (hstep s t i hst hgood.1) hgood.2

/-! ### Accepted inputs -/

def accepted (step : σ → ι → Bool × σ) : σ → List ι → List ι
  | _, [] => []
  | s, i :: is =>
    if (step s i).1 then i :: accepted step (step s i).2 is else accepted step (step s i).2 is

/-- **Acceptance rule.** `May s i` bounds what is accepted after `s`; if accepting `i` leaves only
    inputs that `R` relates to it, the accepted ones are related in order. -/
theorem accepted_pairwise {step : σ → ι → Bool × σ} {R : ι → ι → Prop} (May : σ → ι → Prop)
    (hnow : ∀ s i, (step s i).1 = true → May s i) (hlater : ∀ s i j, May (step s i).2 j → May s j)
    (hrel : ∀ s i j, (step s i).1 = true → May (step s i).2 j → R i j) (s : σ) (is : List ι) :
    (accepted step s is).Pairwise R := by
  have hmay : ∀ (is : List ι) (s : σ), ∀ j ∈ accepted step s is, May s j := by
    intro is
    induction is with
    | nil => exact fun _ _ hj => absurd hj List.not_mem_nil
    | cons i is ih =>
      intro s j hj
      rw [accepted] at hj
      split at hj
      · next hi =>
        rcases List.mem_cons.mp hj with rfl | hj
        · exact hnow s j hi
        · exact hlater s i j (ih _ j hj)
      · exact hlater s i j (ih _ j hj)
  induction is generalizing s with
  | nil => exact List.Pairwise.nil
  | cons i is ih =>
    rw [accepted]
    split
    · next hi => exact List.pairwise_cons.mpr ⟨fun j hj => hrel s i j hi (hmay is _ j hj), ih _⟩
    · exact ih _

theorem foldl_const (is : List ι) (s : σ) : is.foldl (fun s _ => s) s = s := by
  induction is with
  | nil => rfl
  | cons i is ih => exact ih

end Velocity.Lib
