import Mathlib.Data.List.Forall2
import Mathlib.Tactic.Common

namespace Velocity.Lib

/-!
# Computations that fail or overflow

Results with wrapped values, and whether any operation wrapped.
-/

variable {ε α β ι : Type}

structure Checked (ε α : Type) where
  value : Except ε α
  overflowed : Bool
  deriving DecidableEq

namespace Checked

/-- The first error ends both, an overflow is not forgotten. -/
protected def bind (x : Checked ε α) (f : α → Checked ε β) : Checked ε β :=
  match x.value with
  | .error e => ⟨.error e, x.overflowed⟩
  | .ok a => ⟨(f a).value, x.overflowed || (f a).overflowed⟩

instance : Monad (Checked ε) where
  pure a := ⟨.ok a, false⟩
  bind := Checked.bind

def fail (e : ε) : Checked ε α := ⟨.error e, false⟩

def IsOk (x : Checked ε α) : Prop := ∃ a, x.value = .ok a

@[simp] theorem value_pure (a : α) : (pure a : Checked ε α).value = .ok a := rfl

@[simp] theorem overflowed_pure (a : α) : (pure a : Checked ε α).overflowed = false := rfl

theorem value_bind_eq_ok {x : Checked ε α} {f : α → Checked ε β} {b : β} :
    (x >>= f).value = .ok b ↔ ∃ a, x.value = .ok a ∧ (f a).value = .ok b := by
  change (Checked.bind x f).value = .ok b ↔ _
  rw [Checked.bind]
  cases x.value with
  | error e | ok a => simp

theorem overflowed_bind_eq_false {x : Checked ε α} {f : α → Checked ε β} :
    (x >>= f).overflowed = false
      ↔ x.overflowed = false ∧ ∀ a, x.value = .ok a → (f a).overflowed = false := by
  change (Checked.bind x f).overflowed = false ↔ _
  rw [Checked.bind]
  cases x.value with
  | error e | ok a => simp

theorem forall_ok_iff {x : Checked ε α} {P : Prop} : (∀ a, x.value = .ok a → P) ↔ (x.IsOk → P) :=
  ⟨fun h ⟨a, ha⟩ => h a ha, fun h a ha => h ⟨a, ha⟩⟩

/-! ### In turn -/

def each (f : ι → Checked ε α) : List ι → Checked ε (List α)
  | [] => pure []
  | i :: is => do
    let a ← f i
    let as ← each f is
    pure (a :: as)

/-- Every item that is reached has the property. -/
def Reached (accepted P : ι → Prop) : List ι → Prop
  | [] => True
  | i :: is => P i ∧ (accepted i → Reached accepted P is)

theorem Reached.congr {accepted accepted' P P' : ι → Prop} {is : List ι}
    (haccepted : ∀ i ∈ is, accepted i ↔ accepted' i) (hP : ∀ i ∈ is, P i ↔ P' i) :
    Reached accepted P is ↔ Reached accepted' P' is := by
  induction is with
  | nil => exact Iff.rfl
  | cons i is ih =>
    rw [Reached, Reached, hP i List.mem_cons_self, haccepted i List.mem_cons_self,
      ih (fun j hj => haccepted j (List.mem_cons_of_mem i hj))
        (fun j hj => hP j (List.mem_cons_of_mem i hj))]

theorem Reached.forall_mem {accepted P : ι → Prop} {is : List ι} (h : Reached accepted P is)
    (hall : ∀ i ∈ is, accepted i) : ∀ i ∈ is, P i := by
  induction is with
  | nil => exact fun i hi => (List.not_mem_nil hi).elim
  | cons i is ih =>
    rw [List.forall_mem_cons] at hall ⊢
    exact ⟨h.1, ih (h.2 hall.1) hall.2⟩

theorem each_eq_ok {f : ι → Checked ε α} {is : List ι} {as : List α} :
    (each f is).value = .ok as ↔ List.Forall₂ (fun i a => (f i).value = .ok a) is as := by
  induction is generalizing as with
  | nil =>
    rw [each, value_pure, List.forall₂_nil_left_iff]
    exact ⟨fun h => (Except.ok.inj h).symm, fun h => congrArg _ h.symm⟩
  | cons i is ih =>
    rw [each, value_bind_eq_ok, List.forall₂_cons_left_iff]
    constructor
    · rintro ⟨a, ha, hrest⟩
      obtain ⟨as', has', heq⟩ := value_bind_eq_ok.mp hrest
      exact ⟨a, as', ha, ih.mp has', (Except.ok.inj heq).symm⟩
    · rintro ⟨a, as', ha, has', rfl⟩
      exact ⟨a, ha, value_bind_eq_ok.mpr ⟨as', ih.mpr has', rfl⟩⟩

theorem each_isOk_iff {f : ι → Checked ε α} {is : List ι} :
    (each f is).IsOk ↔ ∀ i ∈ is, (f i).IsOk := by
  induction is with
  | nil => exact iff_of_true ⟨[], rfl⟩ (fun i hi => (List.not_mem_nil hi).elim)
  | cons i is ih =>
    rw [List.forall_mem_cons, ← ih]
    constructor
    · rintro ⟨as, h⟩
      obtain ⟨a, ha, hrest⟩ := value_bind_eq_ok.mp h
      obtain ⟨as', has', -⟩ := value_bind_eq_ok.mp hrest
      exact ⟨⟨a, ha⟩, as', has'⟩
    · rintro ⟨⟨a, ha⟩, as, has⟩
      exact ⟨a :: as, value_bind_eq_ok.mpr ⟨a, ha, value_bind_eq_ok.mpr ⟨as, has, rfl⟩⟩⟩

theorem each_overflowed_iff {f : ι → Checked ε α} {is : List ι} :
    (each f is).overflowed = false
      ↔ Reached (fun i => (f i).IsOk) (fun i => (f i).overflowed = false) is := by
  induction is with
  | nil => exact iff_of_true rfl trivial
  | cons i is ih =>
    rw [each, overflowed_bind_eq_false, Reached, ← ih]
    refine and_congr_right (fun _ => ?_)
    constructor
    · rintro h ⟨a, ha⟩
      exact (overflowed_bind_eq_false.mp (h a ha)).1
    · intro h a ha
      exact overflowed_bind_eq_false.mpr ⟨h ⟨a, ha⟩, fun _ _ => rfl⟩

end Checked

end Velocity.Lib
