import Velocity.Saga.Orchestrator

namespace Velocity.Saga

open Lib List SagaStep

/-!
# Compensation of a saga

`fail_step` walks down from the failing step: completed steps above it stay.
-/

namespace SagaExecution

variable {saga : SagaExecution}

def dueAt (saga : SagaExecution) (i : Nat) : Option (UInt64 × Option Bytes) :=
  saga.steps[i]?.bind due

def dueSteps (saga : SagaExecution) : List Nat :=
  (List.range saga.steps.length).reverse.filter (fun i => (saga.dueAt i).isSome)

def dueCompensations (saga : SagaExecution) : List (UInt64 × Option Bytes) :=
  (List.range saga.steps.length).reverse.filterMap saga.dueAt

structure Forward (saga : SagaExecution) : Prop where
  steps : ∀ s ∈ saga.steps, s.status = .pending ∨ s.status = .completed
  status : saga.status ≠ .compensated

/-- All completed steps lie before the failing one and define a compensation. -/
structure Undoable (saga : SagaExecution) (i : Nat) : Prop where
  failing : i < saga.steps.length
  failing_due : saga.dueAt i = none
  some_completed : ∃ j s, j ≠ i ∧ saga.steps[j]? = some s ∧ s.status = .completed
  completed : ∀ j s, j ≠ i → saga.steps[j]? = some s → s.status = .completed →
    j < i ∧ s.compensationWorkflowTypeId.isSome = true

/-! ### The loop of `fail_step` -/

def startCompensation (s : SagaStep) : SagaStep :=
  if s.due.isSome then { s with status := .compensating } else s

theorem compensateStep_eq (acc : List SagaStep × List (UInt64 × Option Bytes)) (i : Nat) :
    compensateStep acc i
      = (acc.1.modify i startCompensation, acc.2 ++ (acc.1[i]?.bind due).toList) := by
  rw [compensateStep]
  split
  · next compensation hdue =>
    obtain ⟨s, hs, hsdue⟩ := Option.bind_eq_some_iff.mp hdue
    rw [hdue, Option.toList_some, Prod.mk.injEq]
    refine ⟨ext_getElem? fun j => ?_, rfl⟩
    rw [getElem?_modify_eq_ite, getElem?_modify_eq_ite]
    split
    · next hj => simp [hj, hs, startCompensation, hsdue]
    · rfl
  · next hdue =>
    rw [hdue, Option.toList_none, append_nil]
    refine Prod.ext_iff.mpr ⟨ext_getElem? fun j => ?_, rfl⟩
    rw [getElem?_modify_eq_ite]
    split
    · next hj =>
      cases hs : acc.1[j]? with
      | none => rfl
      | some s =>
        rw [← hj, hs, Option.bind_some] at hdue
        simp [startCompensation, hdue]
    · rfl

theorem foldl_compensateStep {is : List Nat} (his : is.Nodup) (steps : List SagaStep)
    (compensations : List (UInt64 × Option Bytes)) :
    (∀ j, (is.foldl compensateStep (steps, compensations)).1[j]?
        = if j ∈ is then steps[j]?.map startCompensation else steps[j]?)
      ∧ (is.foldl compensateStep (steps, compensations)).2
        = compensations ++ is.filterMap (fun i => steps[i]?.bind due) := by
  induction is generalizing steps compensations with
  | nil => simp
  | cons i is ih =>
    obtain ⟨hi, his⟩ := nodup_cons.mp his
    rw [foldl_cons, compensateStep_eq]
    obtain ⟨ihsteps, ihcomps⟩ := ih his (steps.modify i startCompensation)
      (compensations ++ (steps[i]?.bind due).toList)
    refine ⟨fun j => ?_, ?_⟩
    · rw [ihsteps, getElem?_modify_eq_ite]
      by_cases hji : j = i
      · simp [hji, hi]
      · simp [hji]
    · rw [ihcomps, append_assoc]
      congr 1
      have hsame : ∀ j ∈ is, (steps.modify i startCompensation)[j]?.bind due
          = steps[j]?.bind due := by
        intro j hj
        rw [getElem?_modify_eq_ite, if_neg (fun (hji : j = i) => hi (hji ▸ hj))]
      rw [filterMap_cons, filterMap_congr hsame]
      cases steps[i]?.bind due <;> rfl

variable {i j : Nat}

theorem failStep_eq (hi : i < saga.steps.length) :
    (saga.failStep i).1 = (List.range i).reverse.filterMap saga.dueAt
      ∧ (saga.failStep i).2.status = .compensating
      ∧ ∀ j, (saga.failStep i).2.steps[j]?
        = if j = i then saga.steps[j]?.map (fun s => { s with status := .failed })
          else if j < i then saga.steps[j]?.map startCompensation
          else saga.steps[j]? := by
  have hnodup : (List.range i).reverse.Nodup := nodup_reverse.mpr nodup_range
  obtain ⟨hsteps, hcomps⟩ := foldl_compensateStep hnodup
    (saga.steps.modify i (fun s => { s with status := .failed })) []
  simp only [failStep, if_pos hi]
  refine ⟨?_, trivial, fun j => ?_⟩
  · rw [hcomps, nil_append]
    refine filterMap_congr fun j hj => ?_
    have hji : j ≠ i := by
      have := mem_range.mp (mem_reverse.mp hj)
      omega
    rw [getElem?_modify_eq_ite, if_neg hji, dueAt]
  · rw [hsteps, getElem?_modify_eq_ite]
    simp only [mem_reverse, mem_range]
    by_cases hji : j = i
    · simp [hji]
    · simp [hji]

theorem mem_dueSteps : j ∈ saga.dueSteps ↔ (saga.dueAt j).isSome = true := by
  rw [dueSteps, mem_filter, mem_reverse, mem_range, and_iff_right_iff_imp]
  intro hdue
  by_contra hj
  rw [dueAt, getElem?_eq_none (by omega)] at hdue
  cases hdue

theorem failStep_returns_due_iff (hi : i < saga.steps.length) :
    (saga.failStep i).1 = saga.dueCompensations ↔ ∀ j, i ≤ j → saga.dueAt j = none := by
  obtain ⟨m, hm⟩ := Nat.exists_eq_add_of_le hi.le
  rw [(failStep_eq hi).1, dueCompensations, hm, range_add, reverse_append,
    filterMap_append, self_eq_append_left, filterMap_eq_nil_iff]
  constructor
  · intro hnone j hij
    by_cases hj : j < saga.steps.length
    · exact hnone j (mem_reverse.mpr
        (mem_map.mpr ⟨j - i, mem_range.mpr (by omega), by omega⟩))
    · rw [dueAt, getElem?_eq_none (by omega), Option.bind_none]
  · intro hnone j hj
    obtain ⟨k, -, rfl⟩ := mem_map.mp (mem_reverse.mp hj)
    exact hnone _ (by omega)

/-! ### Reports -/

def reportCompensations (saga : SagaExecution) (order : List Nat) : SagaExecution :=
  order.foldl completeCompensation saga

@[simp] theorem reportCompensations_cons (i : Nat) (order : List Nat) (saga : SagaExecution) :
    saga.reportCompensations (i :: order) =
    (saga.completeCompensation i).reportCompensations order :=
  rfl

theorem length_reportCompensations (order : List Nat) (saga : SagaExecution) :
    (saga.reportCompensations order).steps.length = saga.steps.length := by
  induction order generalizing saga with
  | nil => rfl
  | cons i order ih =>
    rw [reportCompensations_cons, ih, completeCompensation]
    split
    · exact length_modify ..
    · rfl

theorem getElem?_reportCompensations (order : List Nat) (saga : SagaExecution) (j : Nat) :
    (saga.reportCompensations order).steps[j]?
      = if j ∈ order then saga.steps[j]?.map (fun s => { s with status := .compensated })
        else saga.steps[j]? := by
  induction order generalizing saga with
  | nil => rfl
  | cons i order ih =>
    rw [reportCompensations_cons, ih, getElem?_completeCompensation]
    by_cases hji : j = i
    · by_cases hj : j ∈ order <;> simp [hji, Function.comp_def]
    · simp [hji]

variable {order : List Nat} {s : SagaStep}

theorem status_reportCompensations_of_unsettled {saga : SagaExecution}
    (hs : saga.steps[j]? = some s) (hunsettled : s.settled = false)
    (hj : j ∉ order) : (saga.reportCompensations order).status = saga.status := by
  induction order generalizing saga with
  | nil => rfl
  | cons i order ih =>
    obtain ⟨hji, hj⟩ := not_or.mp (mem_cons.not.mp hj)
    have hs' : (saga.completeCompensation i).steps[j]? = some s := by
      rw [getElem?_completeCompensation, if_neg hji, hs]
    have hnext : (saga.completeCompensation i).status = saga.status := by
      by_cases hi : i < saga.steps.length
      · rw [status_completeCompensation hi, if_neg]
        intro hall
        have hsettled := all_eq_true.mp hall s (mem_of_getElem? hs')
        rw [hunsettled] at hsettled
        cases hsettled
      · rw [completeCompensation, if_neg hi]
    exact (ih hs' hj).trans hnext

theorem status_reportCompensations_of_settled {saga : SagaExecution}
    (hne : order ≠ []) (hbound : ∀ j ∈ order, j < saga.steps.length)
    (hsettled : (saga.reportCompensations order).steps.all settled = true) :
    (saga.reportCompensations order).status = .compensated := by
  obtain ⟨xs, x, rfl⟩ := eq_nil_or_concat' order |>.resolve_left hne
  have hlast : saga.reportCompensations (xs ++ [x])
      = (saga.reportCompensations xs).completeCompensation x := by
    rw [reportCompensations, foldl_append]
    rfl
  have hx : x < (saga.reportCompensations xs).steps.length := by
    rw [length_reportCompensations]
    exact hbound x (by simp)
  rw [hlast] at hsettled ⊢
  rw [status_completeCompensation hx, if_pos hsettled]

/-! ### The law for one saga -/

/-- Exactly the completed steps are compensated, last to first. -/
def CompensatesAll (saga : SagaExecution) (i : Nat) : Prop :=
  (saga.failStep i).1 = saga.dueCompensations
    ∧ ∀ order, order.Perm saga.dueSteps →
      ((saga.failStep i).2.reportCompensations order).status = .compensated

theorem Undoable.dueAt_eq_none (h : saga.Undoable i) (j : Nat) (hij : i ≤ j) :
    saga.dueAt j = none := by
  by_cases hji : j = i
  · rw [hji, h.failing_due]
  · cases hs : saga.steps[j]? with
    | none => rw [dueAt, hs, Option.bind_none]
    | some s =>
      have hnot : s.status ≠ .completed := fun hdone => by
        have := (h.completed j s hji hs hdone).1
        omega
      rw [dueAt, hs, Option.bind_some, due, if_neg hnot]

theorem isSome_dueAt (hs : saga.steps[j]? = some s) (hdone : s.status = .completed) :
    (saga.dueAt j).isSome = s.compensationWorkflowTypeId.isSome := by
  rw [dueAt, hs, Option.bind_some, due, if_pos hdone, Option.isSome_map]

theorem Undoable.settled_reported (h : saga.Undoable i) (hforward : saga.Forward)
    (horder : order.Perm saga.dueSteps) :
    ((saga.failStep i).2.reportCompensations order).steps.all settled = true := by
  rw [all_eq_true]
  intro s' hs'
  obtain ⟨j, hj⟩ := getElem?_of_mem hs'
  rw [getElem?_reportCompensations] at hj
  split at hj
  · obtain ⟨s, -, rfl⟩ := Option.map_eq_some_iff.mp hj
    rfl
  · next hnot =>
    rw [horder.mem_iff, mem_dueSteps] at hnot
    rw [(failStep_eq h.failing).2.2] at hj
    split at hj
    · obtain ⟨s, -, rfl⟩ := Option.map_eq_some_iff.mp hj
      rfl
    · next hji =>
      -- not reported, so it was never completed
      obtain ⟨s, hs⟩ : ∃ s, saga.steps[j]? = some s := by
        cases hs : saga.steps[j]? with
        | some s => exact ⟨s, rfl⟩
        | none => simp [hs] at hj
      have hdue : s.due = none := by simpa [dueAt, hs] using hnot
      have hpending : s.status = .pending := by
        refine (hforward.steps s (mem_of_getElem? hs)).resolve_right fun hdone => ?_
        rw [isSome_dueAt hs hdone] at hnot
        exact hnot (h.completed j s hji hs hdone).2
      have hsame : s' = s := by
        rw [hs] at hj
        split at hj
        · simpa [startCompensation, hdue] using hj.symm
        · exact (Option.some.inj hj).symm
      simp [hsame, settled, hpending]

theorem Undoable.compensatesAll (h : saga.Undoable i) (hforward : saga.Forward) :
    saga.CompensatesAll i := by
  refine ⟨(failStep_returns_due_iff h.failing).mpr h.dueAt_eq_none, fun order horder => ?_⟩
  refine status_reportCompensations_of_settled ?_ ?_ (h.settled_reported hforward horder)
  · obtain ⟨j, s, hji, hs, hdone⟩ := h.some_completed
    have hj : j ∈ saga.dueSteps := by
      rw [mem_dueSteps, isSome_dueAt hs hdone]
      exact (h.completed j s hji hs hdone).2
    exact ne_nil_of_mem (horder.mem_iff.mpr hj)
  · intro j hj
    have hdue := mem_dueSteps.mp (horder.mem_iff.mp hj)
    have hsome : ((saga.failStep i).2.steps[j]?).isSome = true := by
      rw [(failStep_eq h.failing).2.2]
      cases hs : saga.steps[j]? with
      | none => simp [dueAt, hs] at hdue
      | some s =>
        split
        · rfl
        · split <;> rfl
    obtain ⟨s, hs⟩ := Option.isSome_iff_exists.mp hsome
    exact (List.getElem?_eq_some_iff.mp hs).1

theorem CompensatesAll.failing_lt (h : saga.CompensatesAll i) (hforward : saga.Forward) :
    i < saga.steps.length := by
  by_contra hi
  have hfail : saga.failStep i = ([], saga) := by rw [failStep, if_neg hi]
  obtain ⟨hreturned, hreported⟩ := h
  rw [hfail] at hreturned hreported
  have hnone : saga.dueSteps = [] := by
    rw [dueSteps, filter_eq_nil_iff]
    intro j hj
    have := filterMap_eq_nil_iff.mp hreturned.symm j hj
    simp [this]
  exact hforward.status (hreported [] (by rw [hnone]))

theorem CompensatesAll.defines (h : saga.CompensatesAll i) (hi : i < saga.steps.length)
    (hji : j ≠ i) (hs : saga.steps[j]? = some s)
    (hdone : s.status = .completed) : s.compensationWorkflowTypeId.isSome = true := by
  by_contra hundefined
  have hnot : j ∉ saga.dueSteps := by
    rw [mem_dueSteps, isSome_dueAt hs hdone]
    exact hundefined
  have hdue : s.due = none := by
    rw [due, if_pos hdone]
    simpa using hundefined
  have hsame : (saga.failStep i).2.steps[j]? = some s := by
    rw [(failStep_eq hi).2.2, if_neg hji, hs]
    split
    · simp [startCompensation, hdue]
    · rfl
  have hstuck := status_reportCompensations_of_unsettled hsame
    (by simp [settled, hdone]) hnot
  have hstatus := h.2 saga.dueSteps (List.Perm.refl _)
  rw [hstuck, (failStep_eq hi).2.1] at hstatus
  cases hstatus

theorem CompensatesAll.undoable (h : saga.CompensatesAll i) (hforward : saga.Forward) :
    saga.Undoable i := by
  have hi := h.failing_lt hforward
  have hnone := (failStep_returns_due_iff hi).mp h.1
  refine ⟨hi, hnone i le_rfl, ?_, ?_⟩
  · -- with nothing to report the saga stays in compensation
    by_contra hno
    have hempty : saga.dueSteps = [] := by
      rw [eq_nil_iff_forall_not_mem]
      intro j hj
      rw [mem_dueSteps] at hj
      by_cases hji : j = i
      · rw [hji, hnone i le_rfl] at hj
        cases hj
      · cases hs : saga.steps[j]? with
        | none => simp [dueAt, hs] at hj
        | some s =>
          refine hno ⟨j, s, hji, hs, ?_⟩
          by_contra hdone
          simp [dueAt, hs, due, hdone] at hj
    have hstatus := h.2 [] (by rw [hempty])
    rw [show (saga.failStep i).2.reportCompensations [] = (saga.failStep i).2 from rfl,
      (failStep_eq hi).2.1] at hstatus
    cases hstatus
  · intro j s hji hs hdone
    have hdefines := h.defines hi hji hs hdone
    refine ⟨?_, hdefines⟩
    by_contra hlt
    have hdue := isSome_dueAt hs hdone
    rw [hnone j (by omega), hdefines] at hdue
    cases hdue

theorem compensatesAll_iff (hforward : saga.Forward) (i : Nat) :
    saga.CompensatesAll i ↔ saga.Undoable i :=
  ⟨fun h => h.undoable hforward, fun h => h.compensatesAll hforward⟩

/-! ### Completing sagas -/

theorem forward_new (sagaId workflowKey : UInt64) (steps : List SagaStepDefinition) :
    (new sagaId workflowKey steps).Forward where
  steps := by
    intro s hs
    obtain ⟨i, hi, rfl⟩ := mem_mapIdx.mp hs
    exact .inl rfl
  status := nofun

theorem Forward.completeStep (h : saga.Forward) (i : Nat) (result : Option Bytes) :
    (saga.completeStep i result).Forward := by
  rw [SagaExecution.completeStep]
  split
  · refine ⟨fun s hs => ?_, ?_⟩
    · obtain ⟨j, hj⟩ := getElem?_of_mem hs
      rw [getElem?_modify_eq_ite] at hj
      split at hj
      · obtain ⟨s', -, rfl⟩ := Option.map_eq_some_iff.mp hj
        exact .inr rfl
      · exact h.steps s (mem_of_getElem? hj)
    · split
      · exact fun hstatus => by cases hstatus
      · split
        · exact fun hstatus => by cases hstatus
        · exact h.status
  · exact h

def completeSteps (saga : SagaExecution) (calls : List (Nat × Option Bytes)) : SagaExecution :=
  calls.foldl (fun saga call => saga.completeStep call.1 call.2) saga

theorem Forward.completeSteps (h : saga.Forward) (calls : List (Nat × Option Bytes)) :
    (saga.completeSteps calls).Forward := by
  induction calls generalizing saga with
  | nil => exact h
  | cons call calls ih => exact ih (h.completeStep call.1 call.2)

end SagaExecution

/-! ### Calls -/

namespace SagaOrchestrator

variable (o : SagaOrchestrator)

def completeSteps (sagaId : UInt64) (calls : List (Nat × Option Bytes)) : SagaOrchestrator :=
  calls.foldl (fun o call => (o.completeStep sagaId call.1 call.2).2) o

def reportCompensations (sagaId : UInt64) (order : List Nat) : SagaOrchestrator :=
  order.foldl (fun o i => o.completeCompensation sagaId i) o

theorem getSaga_completeSteps (sagaId : UInt64) (calls : List (Nat × Option Bytes))
    (o : SagaOrchestrator) :
    (o.completeSteps sagaId calls).getSaga sagaId
      = (o.getSaga sagaId).map (·.completeSteps calls) := by
  induction calls generalizing o with
  | nil => simp [completeSteps, SagaExecution.completeSteps]
  | cons call calls ih =>
    rw [completeSteps, foldl_cons]
    refine (ih _).trans ?_
    rw [getSaga, completeStep, lookup_modifyKey_self, Option.map_map]
    rfl

theorem getSaga_reportCompensations (sagaId : UInt64) (order : List Nat) (o : SagaOrchestrator) :
    (o.reportCompensations sagaId order).getSaga sagaId
      = (o.getSaga sagaId).map (·.reportCompensations order) := by
  induction order generalizing o with
  | nil => simp [reportCompensations, SagaExecution.reportCompensations]
  | cons i order ih =>
    rw [reportCompensations, foldl_cons]
    refine (ih _).trans ?_
    rw [getSaga, completeCompensation, lookup_modifyKey_self, Option.map_map]
    rfl

/-- The failure gives out all due compensations, and reporting them ends the saga. -/
def CompensatesAll (sagaId : UInt64) (i : Nat) : Prop :=
  ∃ saga, o.getSaga sagaId = some saga
    ∧ (o.failStep sagaId i).1 = saga.dueCompensations
    ∧ ∀ order, order.Perm saga.dueSteps →
      (((o.failStep sagaId i).2.reportCompensations sagaId order).getSaga sagaId).map (·.status)
        = some .compensated

theorem compensatesAll_iff_getSaga {o : SagaOrchestrator} {sagaId : UInt64} {saga : SagaExecution}
    (hsaga : o.getSaga sagaId = some saga) (i : Nat) :
    o.CompensatesAll sagaId i ↔ saga.CompensatesAll i := by
  have hfail : (o.failStep sagaId i).2.getSaga sagaId = some (saga.failStep i).2 := by
    rw [getSaga] at hsaga ⊢
    rw [failStep, lookup_modifyKey_self, hsaga, Option.map_some]
  simp only [CompensatesAll, SagaExecution.CompensatesAll, hsaga, Option.some.injEq,
    exists_eq_left', getSaga_reportCompensations, hfail, Option.map_some]
  rw [failStep, hsaga, Option.map_some, Option.getD_some]

def afterSteps (workflowKey : UInt64) (steps : List SagaStepDefinition)
    (calls : List (Nat × Option Bytes)) : SagaOrchestrator :=
  (o.createSaga workflowKey steps).2.completeSteps o.nextId calls

end SagaOrchestrator

/-- **Compensation** is complete iff the saga is undoable at the failing step. -/
theorem compensation_complete_iff (o : SagaOrchestrator) (workflowKey : UInt64)
    (steps : List SagaStepDefinition) (calls : List (Nat × Option Bytes)) (i : Nat) :
    (o.afterSteps workflowKey steps calls).CompensatesAll o.nextId i
      ↔ ∃ saga, (o.afterSteps workflowKey steps calls).getSaga o.nextId = some saga
        ∧ saga.Undoable i := by
  have hsaga : (o.afterSteps workflowKey steps calls).getSaga o.nextId
      = some ((SagaExecution.new o.nextId workflowKey steps).completeSteps calls) := by
    rw [SagaOrchestrator.afterSteps, SagaOrchestrator.getSaga_completeSteps,
      SagaOrchestrator.getSaga_createSaga, Option.map_some]
  have hforward := (SagaExecution.forward_new o.nextId workflowKey steps).completeSteps calls
  rw [SagaOrchestrator.compensatesAll_iff_getSaga hsaga,
    SagaExecution.compensatesAll_iff hforward, hsaga]
  simp

def secondCompletesFirst : List SagaStepDefinition :=
  [(SagaStepDefinition.new "reserve" 10).withCompensation 11 none,
   (SagaStepDefinition.new "charge" 20).withCompensation 21 none]

theorem later_step_not_compensated :
    (((⟨∅, 1⟩ : SagaOrchestrator).afterSteps 7 secondCompletesFirst [(1, none)]).failStep 1 0).1
        = []
      ∧ (((⟨∅, 1⟩ : SagaOrchestrator).afterSteps 7 secondCompletesFirst [(1, none)]).getSaga 1).map
          (·.dueCompensations) = some [(21, none)] := by
  decide +kernel

end Velocity.Saga
